import MemoryHub.Memory.Cycle
import MemoryHub.Memory.Disk
import MemoryHub.Memory.RawLocation

/-!
# Targets do not disturb each other

A part of a cycle reads raw files and the folders of its sources, and writes to the folder of
its own target.  No two targets share a folder, so what a part does depends neither on the
order in which the parts run nor on what the others get from the language model.

Main results:

- Theorem `inFolder_unique`: targets share no folder.
- Theorem `pass_alike`: a part does the same in passes that differ in the other parts.
- Theorem `targets_isolated`: what a cycle writes to the folder of an agent or a user, in any
  order and whatever becomes of the others.
-/

namespace MemoryHub
namespace Memory

open Collections Llm Prog UnixPath

/-! ## Folders -/

/-- Targets share no folder. -/
theorem inFolder_unique {target target' : SynthesisTarget} (htarget : IsTarget target)
    (htarget' : IsTarget target') {path : String} (h : Synthesizer.InFolder target path)
    (h' : Synthesizer.InFolder target' path) : target = target' := by
  rcases h with ⟨name, hname, rfl⟩
  rcases h' with ⟨name', hname', heq⟩
  have hpieces := congrArg pieces heq
  rw [summaryPath, summaryPath, pieces_append_slash, pieces_append_slash,
    pieces_eq_singleton hname, pieces_eq_singleton hname', pieces_synthesisFolder htarget,
    pieces_synthesisFolder htarget'] at hpieces
  exact folderNames_inj.mp (List.reverse_injective (List.append_inj' hpieces rfl).1)

theorem inFolder_iff {target : SynthesisTarget} {path : String} :
    Synthesizer.InFolder target path ↔
      (Disk.nameIn (synthesisFolder target) path).isSome = true := by
  rw [Option.isSome_iff_exists]
  simp only [Disk.nameIn_eq_some]
  exact exists_congr fun name => and_comm

instance (target : SynthesisTarget) (path : String) :
    Decidable (Synthesizer.InFolder target path) :=
  decidable_of_iff _ inFolder_iff.symm

/-- A file change that file operations can send: of a raw path of a known user. -/
def IsNotified (file : FileChanged) : Prop :=
  Http.validateUsername file.username = .ok () ∧
    ∃ project filename, getRawPath file.username file.agentId project filename = .ok file.path

/-! ## Outcomes -/

/-- What the language model answers, what day it is and how folders are listed.  A synthesis
depends on its target and its request, an embedding on its texts, and the order in which a
folder is listed on the names it holds; storage, scans and index do not fail. -/
structure CycleOutcomes where
  today : NaiveDate
  listing : String → IterationOrder String
  listing_perm : ∀ folder names names', names.Perm names' →
    (listing folder).arrange names = (listing folder).arrange names'
  synthesize : SynthesisTarget → Option String → List SourceDoc → Except MemoryError String
  embed : List String → Except MemoryError EmbedResult

namespace CycleOutcomes

/-- The surroundings with these outcomes. -/
def script (o : CycleOutcomes) : CycleScript where
  listing _ := o.listing
  scanFails _ := none
  sizeFails _ := false
  today _ := o.today
  readFails _ := none
  writeFails _ := none
  embed _ := o.embed
  synthesize _ := o.synthesize
  indexFails _ := none

/-- The state after a cycle. -/
def cycle (o : CycleOutcomes) (config : Synthesizer.MemoryConfig)
    (orders : Synthesizer.CycleOrders) (changedFiles : List FileChanged) (d : Disk) : CycleState :=
  (o.script.exec (Synthesizer.process config orders changedFiles) ⟨d, []⟩).2

/-- The same outcomes but for the syntheses. -/
def withSynthesize (o : CycleOutcomes)
    (synthesize : SynthesisTarget → Option String → List SourceDoc → Except MemoryError String) :
    CycleOutcomes :=
  { o with synthesize := synthesize }

end CycleOutcomes

/-- The path and content an event has stored in a target's folder. -/
def CycleEvent.writtenTo (target : SynthesisTarget) (e : CycleEvent) : Option (String × String) :=
  match e.call with
  | .storageWrite path content =>
      if e.stored = true ∧ Synthesizer.InFolder target path then some (path, content) else none
  | _ => none

/-- The files a cycle has written to a target's folder. -/
def CycleState.filesWritten (s : CycleState) (target : SynthesisTarget) :
    List (String × String) :=
  s.events.filterMap (CycleEvent.writtenTo target)

/-! ## Alike states -/

/-- The states hold the same where it is readable, and the same files have been written to the
target's folder. -/
structure Alike (readable : String → Prop) (target : SynthesisTarget) (s t : CycleState) :
    Prop where
  disk : ∀ path, readable path → s.disk.lookup path = t.disk.lookup path
  written : s.filesWritten target = t.filesWritten target

section

variable {readable : String → Prop} {target : SynthesisTarget} {s t u : CycleState}
  {o : CycleOutcomes}
  {synthesize : SynthesisTarget → Option String → List SourceDoc → Except MemoryError String}

theorem Alike.refl (s : CycleState) : Alike readable target s s :=
  ⟨fun _ _ => rfl, rfl⟩

theorem Alike.symm (h : Alike readable target s t) : Alike readable target t s :=
  ⟨fun path hpath => (h.disk path hpath).symm, h.written.symm⟩

theorem Alike.trans (h : Alike readable target s t) (h' : Alike readable target t u) :
    Alike readable target s u :=
  ⟨fun path hpath => (h.disk path hpath).trans (h'.disk path hpath),
    h.written.trans h'.written⟩

/-- Alike folders hold the same names. -/
theorem namesIn_perm {d d' : Disk} {folder : String}
    (h : ∀ name : String, '/' ∉ name.toList →
      d.lookup (folder ++ "/" ++ name) = d'.lookup (folder ++ "/" ++ name)) :
    (d.namesIn folder).Perm (d'.namesIn folder) := by
  rw [List.perm_ext_iff_of_nodup (d.nodup_namesIn folder) (d'.nodup_namesIn folder)]
  intro name
  rw [Disk.mem_namesIn, Disk.mem_namesIn]
  refine and_congr_right fun hname => ?_
  rw [← AList.lookup_isSome, ← AList.lookup_isSome, h name hname]

/-- Events that write the same leave states alike. -/
theorem Alike.snoc (h : Alike readable target s t) {d d' : Disk}
    (hdisk : ∀ path, readable path → d.lookup path = d'.lookup path) {e e' : CycleEvent}
    (he : e.writtenTo target = e'.writtenTo target) :
    Alike readable target ⟨d, s.events ++ [e]⟩ ⟨d', t.events ++ [e']⟩ := by
  refine ⟨hdisk, ?_⟩
  have hwritten := h.written
  unfold CycleState.filesWritten at hwritten ⊢
  simp only [List.filterMap_append, List.filterMap_cons, List.filterMap_nil, he, hwritten]

/-- A call that works for the target is answered alike in alike states, and leaves them so. -/
theorem handle_alike
    (hsame : ∀ prior sources, synthesize target prior sources = o.synthesize target prior sources)
    {c : SynthesizerCall} (hc : Synthesizer.WorksFor readable target c)
    (h : Alike readable target s t) :
    (o.script.handle c s).1 = ((o.withSynthesize synthesize).script.handle c t).1 ∧
      Alike readable target (o.script.handle c s).2
        ((o.withSynthesize synthesize).script.handle c t).2 := by
  cases c with
  | storageRead path => exact ⟨congrArg Except.ok (h.disk path hc), h.snoc h.disk rfl⟩
  | storageWrite path content =>
      refine ⟨rfl, h.snoc ?_ rfl⟩
      intro other hother
      change (s.disk.insert path content).lookup other = (t.disk.insert path content).lookup other
      by_cases heq : other = path
      · rw [heq, AList.lookup_insert, AList.lookup_insert]
      · rw [AList.lookup_insert_ne heq, AList.lookup_insert_ne heq, h.disk other hother]
  | embed texts => exact ⟨rfl, h.snoc h.disk rfl⟩
  | synthesize asked prior sources =>
      cases hc
      exact ⟨(hsame prior sources).symm, h.snoc h.disk rfl⟩
  | indexInsert msg => exact ⟨rfl, h.snoc h.disk rfl⟩
  | readDir folder =>
      have hnames := o.listing_perm folder _ _
        (namesIn_perm fun name hname => h.disk _ (hc name hname))
      exact ⟨congrArg (fun names : List String => some (names.map some)) hnames,
        h.snoc h.disk rfl⟩
  | fileSize path =>
      exact ⟨congrArg (Option.map String.utf8ByteSize) (h.disk path hc), h.snoc h.disk rfl⟩
  | today => exact ⟨rfl, h.snoc h.disk rfl⟩

/-- A call that writes neither where it is readable nor to the target's folder leaves a state
alike. -/
theorem handle_frame {c : SynthesizerCall}
    (hc : ∀ path content, c = .storageWrite path content →
      ¬ readable path ∧ ¬ Synthesizer.InFolder target path) :
    Alike readable target s (o.script.handle c s).2 := by
  have hquiet : ∀ {d : Disk} {e : CycleEvent},
      (∀ path, readable path → s.disk.lookup path = d.lookup path) → e.writtenTo target = none →
        Alike readable target s ⟨d, s.events ++ [e]⟩ := by
    intro d e hdisk he
    refine ⟨hdisk, ?_⟩
    simp [CycleState.filesWritten, List.filterMap_append, he]
  cases c with
  | storageWrite path content =>
      rcases hc path content rfl with ⟨hread, hfolder⟩
      refine hquiet ?_ ?_
      · intro other hother
        have hne : other ≠ path := by
          rintro rfl
          exact hread hother
        exact (AList.lookup_insert_ne hne).symm
      · simp [CycleEvent.writtenTo, hfolder]
  | storageRead path => exact hquiet (fun _ _ => rfl) rfl
  | embed texts => exact hquiet (fun _ _ => rfl) rfl
  | synthesize asked prior sources => exact hquiet (fun _ _ => rfl) rfl
  | indexInsert msg => exact hquiet (fun _ _ => rfl) rfl
  | readDir folder => exact hquiet (fun _ _ => rfl) rfl
  | fileSize path => exact hquiet (fun _ _ => rfl) rfl
  | today => exact hquiet (fun _ _ => rfl) rfl

/-! ## Parts and passes -/

/-- Every response may come. -/
abbrev AnyResponse (c : SynthesizerCall) (_ : c.Response) : Prop :=
  True

/-- The part works for the target. -/
abbrev PartFor {α : Type} (readable : String → Prop) (target : SynthesisTarget)
    (x : FallibleSynthesis α) : Prop :=
  MeetsOk AnyResponse (Synthesizer.WorksFor readable target) (fun _ => True) x

/-- The part leaves what is readable and the target's folder to others. -/
def PartSpares {α : Type} (readable : String → Prop) (target : SynthesisTarget)
    (x : FallibleSynthesis α) : Prop :=
  ∃ other, PartFor (fun _ => True) other x ∧ ∀ path, Synthesizer.InFolder other path →
    ¬ readable path ∧ ¬ Synthesizer.InFolder target path

/-- A part for the target does the same in alike states. -/
theorem part_alike
    (hsame : ∀ prior sources, synthesize target prior sources = o.synthesize target prior sources)
    {α : Type} {x : FallibleSynthesis α} (hx : PartFor readable target x)
    (h : Alike readable target s t) :
    (Prog.exec o.script.handle x.run s).1 =
        (Prog.exec (o.withSynthesize synthesize).script.handle x.run t).1 ∧
      Alike readable target (Prog.exec o.script.handle x.run s).2
        (Prog.exec (o.withSynthesize synthesize).script.handle x.run t).2 := by
  apply Meets.exec_related hx _ h
  intro c s t hc hst
  exact ⟨trivial, handle_alike hsame hc hst⟩

/-- A part for another target leaves a state alike. -/
theorem part_frame {α : Type} {x : FallibleSynthesis α} (hx : PartSpares readable target x)
    (s : CycleState) : Alike readable target s (Prog.exec o.script.handle x.run s).2 := by
  rcases hx with ⟨other, hfor, hother⟩
  refine (Meets.exec_keeps hfor (I := Alike readable target s) ?_ (Alike.refl s)).2
  intro c t hc hst
  refine ⟨trivial, hst.trans (handle_frame ?_)⟩
  rintro path content rfl
  exact hother path hc

variable {ε : Type} {part : ε → FallibleSynthesis Bool} {entries entries' : List ε} {entry : ε}

/-- A pass of parts for other targets leaves a state alike. -/
theorem pass_frame (hspares : ∀ other ∈ entries, PartSpares readable target (part other))
    (s : CycleState) :
    Alike readable target s (Synthesizer.partsEnd o.script.handle part entries s) :=
  Synthesizer.partsEnd_keeps Alike.refl (fun _ _ _ => Alike.trans)
    (fun other hother s => part_frame (hspares other hother) s) s

/-- In passes that both have the one part for the target, all others being for other targets,
it does the same. -/
theorem pass_alike (own : ε → Prop)
    (hsame : ∀ prior sources, synthesize target prior sources = o.synthesize target prior sources)
    (hnodup : entries.Nodup) (hnodup' : entries'.Nodup)
    (hmem : entry ∈ entries) (hmem' : entry ∈ entries') (hown : own entry)
    (honly : ∀ other ∈ entries, own other → other = entry)
    (honly' : ∀ other ∈ entries', own other → other = entry)
    (hfor : PartFor readable target (part entry))
    (hspares : ∀ other ∈ entries, ¬ own other → PartSpares readable target (part other))
    (hspares' : ∀ other ∈ entries', ¬ own other → PartSpares readable target (part other))
    (h : Alike readable target s t) :
    Alike readable target (Synthesizer.partsEnd o.script.handle part entries s)
        (Synthesizer.partsEnd (o.withSynthesize synthesize).script.handle part entries' t) ∧
      ((∃ run ∈ Synthesizer.partRuns o.script.handle part entries s,
          own run.entry ∧ run.result = .ok true) ↔
        ∃ run ∈ Synthesizer.partRuns (o.withSynthesize synthesize).script.handle part entries' t,
          own run.entry ∧ run.result = .ok true) := by
  have hruns : ∀ run ∈ Synthesizer.partRuns o.script.handle part entries s,
      ∀ run' ∈ Synthesizer.partRuns (o.withSynthesize synthesize).script.handle part entries' t,
        run.entry = entry → run'.entry = entry → run.result = run'.result ∧
          Alike readable target (Synthesizer.partsEnd o.script.handle part entries s)
            (Synthesizer.partsEnd (o.withSynthesize synthesize).script.handle part entries' t) := by
    intro run hrun run' hrun' hentry hentry'
    have haround := Synthesizer.around_run Alike.refl (fun _ _ _ => Alike.trans) hnodup
      (fun other hother hne s =>
        part_frame (hspares other hother fun hk => hne (honly other hother hk)) s) hrun hentry
    have haround' := Synthesizer.around_run Alike.refl (fun _ _ _ => Alike.trans) hnodup'
      (fun other hother hne s =>
        part_frame (hspares' other hother fun hk => hne (honly' other hother hk)) s) hrun' hentry'
    have hbefore : Alike readable target run.before run'.before :=
      haround.1.symm.trans (h.trans haround'.1)
    have hexec := Synthesizer.exec_of_mem_partRuns hrun
    have hexec' := Synthesizer.exec_of_mem_partRuns hrun'
    rw [hentry] at hexec
    rw [hentry'] at hexec'
    have hpart := part_alike hsame hfor hbefore
    rw [hexec, hexec'] at hpart
    exact ⟨hpart.1, haround.2.symm.trans (hpart.2.trans haround'.2)⟩
  rcases Synthesizer.exists_mem_partRuns hmem s with ⟨run, hrun, hentry⟩
  rcases Synthesizer.exists_mem_partRuns hmem' t with ⟨run', hrun', hentry'⟩
  refine ⟨(hruns run hrun run' hrun' hentry hentry').2, ?_⟩
  constructor
  · rintro ⟨r, hr, hk, hok⟩
    have hsame := hruns r hr run' hrun' (honly _ (Synthesizer.entry_of_mem_partRuns hr) hk) hentry'
    exact ⟨run', hrun', hentry' ▸ hown, hsame.1 ▸ hok⟩
  · rintro ⟨r, hr, hk, hok⟩
    have hsame := hruns run hrun r hr hentry (honly' _ (Synthesizer.entry_of_mem_partRuns hr) hk)
    exact ⟨run, hrun, hentry ▸ hown, hsame.1 ▸ hok⟩

end

/-! ## A cycle -/

open Synthesizer

/-- What an agent's part may read: raw files and the agent's folder. -/
def agentReads (username : String) (agentId : Uuid) (path : String) : Prop :=
  IsRawKey path ∨ InFolder (.agent username agentId.hyphenated) path

/-- What a user's part may read: the folders of its agents and its own. -/
def userReads (username : String) (path : String) : Prop :=
  (∃ agentId : Uuid, InFolder (.agent username agentId.hyphenated) path) ∨
    InFolder (.user username) path

section

variable {config : MemoryConfig} {orders orders' : CycleOrders} {changedFiles : List FileChanged}
  {o : CycleOutcomes} {username : String} {agentId : Uuid}
  {synthesize : SynthesisTarget → Option String → List SourceDoc → Except MemoryError String}

/-- A part for another target leaves an agent's reads and folder alone. -/
theorem spares_agentReads {other : SynthesisTarget} (hother : IsTarget other)
    (huser : Http.validateUsername username = .ok ())
    (hne : other ≠ .agent username agentId.hyphenated) {α : Type} {x : FallibleSynthesis α}
    (hx : PartFor (fun _ => True) other x) :
    PartSpares (agentReads username agentId) (.agent username agentId.hyphenated) x := by
  have htarget : IsTarget (.agent username agentId.hyphenated) := ⟨huser, agentId, rfl⟩
  refine ⟨other, hx, ?_⟩
  intro path hpath
  have hfolder : ¬ InFolder (.agent username agentId.hyphenated) path :=
    fun h => hne (inFolder_unique hother htarget hpath h)
  refine ⟨?_, hfolder⟩
  rintro (hraw | h)
  · rcases hpath with ⟨name, hname, rfl⟩
    exact not_isRawKey_summaryPath other hname hraw
  · exact hfolder h

/-- A part for a target that is neither the user nor one of its agents leaves the user's reads
and folder alone. -/
theorem spares_userReads {other : SynthesisTarget} (hother : IsTarget other)
    (huser : Http.validateUsername username = .ok ()) (hne : other ≠ .user username)
    (hagents : ∀ agentId : Uuid, other ≠ .agent username agentId.hyphenated) {α : Type}
    {x : FallibleSynthesis α} (hx : PartFor (fun _ => True) other x) :
    PartSpares (userReads username) (.user username) x := by
  refine ⟨other, hx, ?_⟩
  intro path hpath
  have hfolder : ¬ InFolder (.user username) path :=
    fun h => hne (inFolder_unique hother huser hpath h)
  refine ⟨?_, hfolder⟩
  rintro (⟨agentId, h⟩ | h)
  · exact hagents agentId (inFolder_unique hother ⟨huser, agentId, rfl⟩ hpath h)
  · exact hfolder h

theorem agentPart_for (entry : Σ _ : String × Uuid, Finset String) {readable : String → Prop}
    (hfiles : ∀ file ∈ entry.2, readable file)
    (hfolder : ∀ path, InFolder (.agent entry.1.1 entry.1.2.hyphenated) path → readable path) :
    PartFor readable (.agent entry.1.1 entry.1.2.hyphenated) (agentPart config entry) :=
  worksFor_of_serves (synthesizeAgent_serves config _ _ hfiles hfolder)

theorem userPart_for (entry : Σ _ : String, Finset Uuid) {readable : String → Prop}
    (hreads : ∀ path, userReads entry.1 path → readable path) :
    PartFor readable (.user entry.1) (userPart config entry) :=
  worksFor_of_serves (synthesizeUser_serves config _
    (fun agentId _ path hpath => hreads path (Or.inl ⟨agentId, hpath⟩))
    fun path hpath => hreads path (Or.inr hpath))

/-- The agents of a cycle are those of known users, and their files are raw. -/
theorem isNotified_of_agentEntries (hchanged : ∀ file ∈ changedFiles, IsNotified file)
    {entry : Σ _ : String × Uuid, Finset String}
    (hentry : entry ∈ agentEntries orders changedFiles) :
    Http.validateUsername entry.1.1 = .ok () ∧ ∀ file ∈ entry.2, IsRawKey file := by
  rcases entry with ⟨⟨user, agent⟩, files⟩
  rcases mem_agentEntries.mp hentry with ⟨rfl, file, hfile⟩
  refine ⟨(hchanged _ (mem_fileGroups.mp hfile)).1, ?_⟩
  intro path hpath
  rcases (hchanged _ (mem_fileGroups.mp hpath)).2 with ⟨project, filename, hraw⟩
  exact ⟨user, agent, project, filename, hraw⟩

/-- The users of a cycle are known. -/
theorem validUsername_of_userEntries (hchanged : ∀ file ∈ changedFiles, IsNotified file)
    {σ : Type} {handle : (c : SynthesizerCall) → σ → c.Response × σ} {s : σ}
    {entry : Σ _ : String, Finset Uuid}
    (hentry : entry ∈ userEntries handle config orders changedFiles s) :
    Http.validateUsername entry.1 = .ok () := by
  rcases entry with ⟨user, agentIds⟩
  rcases mem_userEntries.mp hentry with ⟨rfl, agent, hagent⟩
  rcases mem_afterAgents.mp hagent with ⟨run, hrun, hkey, -⟩
  have hvalid := (isNotified_of_agentEntries hchanged (entry_of_mem_partRuns hrun)).1
  rw [hkey] at hvalid
  exact hvalid

/-- What all calls that serve a target keep, a cycle keeps. -/
theorem cycle_keeps (hchanged : ∀ file ∈ changedFiles, IsNotified file) {σ : Type}
    {handle : (c : SynthesizerCall) → σ → c.Response × σ} {I : σ → Prop}
    (hcall : ∀ target c s, IsTarget target → Serves (fun _ => True) target c → I s →
      I (handle c s).2) {s : σ} (hs : I s) :
    I (Prog.exec handle (process config orders changedFiles) s).2 := by
  have hpart : ∀ (α : Type) (target : SynthesisTarget) (x : FallibleSynthesis α),
      IsTarget target → MeetsOk AnyResponse (Serves (fun _ => True) target) (fun _ => True) x →
        ∀ t, I t → I (Prog.exec handle x.run t).2 := by
    intro α target x htarget hx t ht
    refine (Meets.exec_keeps hx ?_ ht).2
    intro c u hc hu
    exact ⟨trivial, hcall target c u htarget hc hu⟩
  by_cases hne : changedFiles = []
  · rw [hne]
    exact hs
  · have hagents : I (afterAgents handle config orders changedFiles s).2 := by
      rw [afterAgents_end]
      refine partsEnd_invariant (fun entry hentry => ?_) hs
      exact hpart _ (.agent entry.1.1 entry.1.2.hyphenated) _
        ⟨(isNotified_of_agentEntries hchanged hentry).1, _, rfl⟩
        (synthesizeAgent_serves config _ _ (by simp) (by simp))
    have husers : I (afterUsers handle config orders changedFiles s).2 := by
      rw [afterUsers_end]
      refine partsEnd_invariant (fun entry hentry => ?_) hagents
      exact hpart _ (.user entry.1) _ (validUsername_of_userEntries hchanged hentry)
        (synthesizeUser_serves config _ (by simp) (by simp))
    rw [process_exec _ _ _ _ _ hne]
    split
    · exact husers
    · exact hpart _ .global _ trivial (synthesizeGlobal_serves config (by simp) (by simp)) _ husers

/-- Entries of a pass are told apart by their targets. -/
theorem entry_eq_of_key {entry entry' : Σ _ : String × Uuid, Finset String}
    (hentry : entry ∈ agentEntries orders changedFiles)
    (hentry' : entry' ∈ agentEntries orders' changedFiles) (hkey : entry.1 = entry'.1) :
    entry = entry' := by
  rcases entry with ⟨⟨user, agent⟩, files⟩
  rcases entry' with ⟨⟨user', agent'⟩, files'⟩
  cases hkey
  rw [← (mem_agentEntries.mp hentry).1, ← (mem_agentEntries.mp hentry').1]

/-- After pass 1 an agent's reads and folder are alike, whatever becomes of the others, and so
is whether it has changed. -/
theorem agents_alike (hchanged : ∀ file ∈ changedFiles, IsNotified file)
    (huser : Http.validateUsername username = .ok ())
    (hsame : ∀ prior sources, synthesize (.agent username agentId.hyphenated) prior sources =
      o.synthesize (.agent username agentId.hyphenated) prior sources) (s : CycleState) :
    Alike (agentReads username agentId) (.agent username agentId.hyphenated)
        (afterAgents o.script.handle config orders changedFiles s).2
        (afterAgents (o.withSynthesize synthesize).script.handle config orders' changedFiles s).2 ∧
      (agentId ∈ (afterAgents o.script.handle config orders changedFiles s).1.members username ↔
        agentId ∈ (afterAgents (o.withSynthesize synthesize).script.handle config orders'
          changedFiles s).1.members username) := by
  have hspares : ∀ (orders : CycleOrders), ∀ other ∈ agentEntries orders changedFiles,
      other.1 ≠ (username, agentId) → PartSpares (agentReads username agentId)
        (.agent username agentId.hyphenated) (agentPart config other) := by
    intro orders other hother hne
    have hvalid := (isNotified_of_agentEntries hchanged hother).1
    have htarget : IsTarget (.agent other.1.1 other.1.2.hyphenated) := ⟨hvalid, _, rfl⟩
    refine spares_agentReads htarget huser ?_
      (agentPart_for other (fun _ _ => trivial) fun _ _ => trivial)
    intro heq
    rcases SynthesisTarget.agent.inj heq with ⟨hname, hid⟩
    exact hne (Prod.ext hname (Uuid.hyphenated_inj.mp hid))
  rw [mem_afterAgents, mem_afterAgents, afterAgents_end, afterAgents_end]
  by_cases hfiles : ((fileGroups changedFiles).members (username, agentId)).Nonempty
  · -- The agent has a part in both passes.
    have hmem : ∀ orders : CycleOrders,
        ⟨(username, agentId), (fileGroups changedFiles).members (username, agentId)⟩ ∈
          agentEntries orders changedFiles :=
      fun orders => mem_agentEntries.mpr ⟨rfl, hfiles⟩
    have honly : ∀ (orders : CycleOrders), ∀ other ∈ agentEntries orders changedFiles,
        other.1 = (username, agentId) →
          other = ⟨(username, agentId), (fileGroups changedFiles).members (username, agentId)⟩ :=
      fun orders other hother h => entry_eq_of_key hother (hmem orders) h
    have hfor : PartFor (agentReads username agentId) (.agent username agentId.hyphenated)
        (agentPart config
          ⟨(username, agentId), (fileGroups changedFiles).members (username, agentId)⟩) :=
      agentPart_for ⟨(username, agentId), _⟩ (fun file hfile =>
        Or.inl ((isNotified_of_agentEntries hchanged (hmem orders)).2 file hfile))
        fun _ hpath => Or.inr hpath
    exact pass_alike (fun entry => entry.1 = (username, agentId)) hsame
      (nodup_agentEntries _ _) (nodup_agentEntries _ _) (hmem orders) (hmem orders') rfl
      (honly orders) (honly orders') hfor (hspares orders) (hspares orders') (Alike.refl s)
  · have hnone : ∀ (orders : CycleOrders), ∀ other ∈ agentEntries orders changedFiles,
        other.1 ≠ (username, agentId) := by
      rintro orders ⟨key, files⟩ hother rfl
      rcases mem_agentEntries.mp hother with ⟨rfl, hne⟩
      exact hfiles hne
    refine ⟨?_, ?_⟩
    · exact (pass_frame (fun other h => hspares orders other h (hnone orders other h)) s).symm.trans
        (pass_frame (fun other h => hspares orders' other h (hnone orders' other h)) s)
    · constructor
      · rintro ⟨run, hrun, hkey, -⟩
        exact absurd hkey (hnone orders _ (entry_of_mem_partRuns hrun))
      · rintro ⟨run, hrun, hkey, -⟩
        exact absurd hkey (hnone orders' _ (entry_of_mem_partRuns hrun))

/-- Pass 1 leaves the user's own folder alone. -/
theorem afterAgents_spares_user (hchanged : ∀ file ∈ changedFiles, IsNotified file)
    (htarget : IsTarget (.user username)) (s : CycleState) :
    Alike (InFolder (.user username)) (.user username) s
      (afterAgents o.script.handle config orders changedFiles s).2 := by
  rw [afterAgents_end]
  apply pass_frame
  intro other hother
  have hvalid := (isNotified_of_agentEntries hchanged hother).1
  refine ⟨_, agentPart_for other (fun _ _ => trivial) fun _ _ => trivial, ?_⟩
  intro path hpath
  have hagent : IsTarget (.agent other.1.1 other.1.2.hyphenated) := ⟨hvalid, _, rfl⟩
  have hfolder : ¬ InFolder (.user username) path := by
    intro h
    have heq := inFolder_unique hagent htarget hpath h
    simp at heq
  exact ⟨hfolder, hfolder⟩

/-- The part of another user leaves alone what this one's part reads. -/
theorem userPart_spares (hchanged : ∀ file ∈ changedFiles, IsNotified file)
    (huser : Http.validateUsername username = .ok ()) (s : CycleState)
    {other : Σ _ : String, Finset Uuid}
    (hother : other ∈ userEntries o.script.handle config orders changedFiles s)
    (hne : other.1 ≠ username) :
    PartSpares (userReads username) (.user username) (userPart config other) := by
  have hvalid : IsTarget (.user other.1) := validUsername_of_userEntries hchanged hother
  refine spares_userReads hvalid huser ?_ (by simp) (userPart_for other fun _ _ => trivial)
  intro heq
  exact hne (SynthesisTarget.user.inj heq)

/-- A user without changed agents has no part in pass 2. -/
theorem ne_of_mem_userEntries {s : CycleState}
    (hnone : ¬ ((afterAgents o.script.handle config orders changedFiles s).1.members
      username).Nonempty) {other : Σ _ : String, Finset Uuid}
    (hother : other ∈ userEntries o.script.handle config orders changedFiles s) :
    other.1 ≠ username := by
  rcases other with ⟨user, agentIds⟩
  rintro rfl
  rcases mem_userEntries.mp hother with ⟨rfl, h⟩
  exact hnone h

/-- After pass 2 a user's reads and folder are alike, whatever becomes of the others. -/
theorem users_alike (hchanged : ∀ file ∈ changedFiles, IsNotified file)
    (huser : Http.validateUsername username = .ok ())
    (hagents : ∀ (agentId : Uuid) prior sources,
      synthesize (.agent username agentId.hyphenated) prior sources =
        o.synthesize (.agent username agentId.hyphenated) prior sources)
    (hsame : ∀ prior sources, synthesize (.user username) prior sources =
      o.synthesize (.user username) prior sources) (s : CycleState) :
    Alike (userReads username) (.user username)
      (afterUsers o.script.handle config orders changedFiles s).2
      (afterUsers (o.withSynthesize synthesize).script.handle config orders' changedFiles s).2 := by
  -- Pass 1 writes nothing to the user's folder, and to its agents' folders the same.
  have hfirst : Alike (userReads username) (.user username)
      (afterAgents o.script.handle config orders changedFiles s).2
      (afterAgents (o.withSynthesize synthesize).script.handle config orders' changedFiles
        s).2 := by
    have hsides : Alike (InFolder (.user username)) (.user username)
        (afterAgents o.script.handle config orders changedFiles s).2
        (afterAgents (o.withSynthesize synthesize).script.handle config orders' changedFiles s).2 :=
      (afterAgents_spares_user hchanged huser s).symm.trans
        (afterAgents_spares_user hchanged huser s)
    refine ⟨?_, hsides.written⟩
    rintro path (⟨agentId, hpath⟩ | hpath)
    · exact (agents_alike hchanged huser (hagents agentId) s).1.disk path (Or.inr hpath)
    · exact hsides.disk path hpath
  have hmembers : (afterAgents o.script.handle config orders changedFiles s).1.members username =
      (afterAgents (o.withSynthesize synthesize).script.handle config orders' changedFiles
        s).1.members username := by
    ext agentId
    exact (agents_alike hchanged huser (hagents agentId) s).2
  rw [afterUsers_end, afterUsers_end]
  by_cases hne : ((afterAgents o.script.handle config orders changedFiles s).1.members
      username).Nonempty
  · have hmem := mem_userEntries.mpr ⟨rfl, hne⟩
    have hmem' := mem_userEntries.mpr ⟨hmembers.symm, hne⟩
    exact (pass_alike (fun entry => entry.1 = username) hsame nodup_userEntries nodup_userEntries
      hmem hmem' rfl
      (fun other hother hkey => by
        rcases other with ⟨user, agentIds⟩
        cases hkey
        rw [← (mem_userEntries.mp hother).1])
      (fun other hother hkey => by
        rcases other with ⟨user, agentIds⟩
        cases hkey
        rw [← (mem_userEntries.mp hother).1, hmembers])
      (userPart_for ⟨username, _⟩ fun _ hpath => hpath)
      (fun _ hother hne => userPart_spares hchanged huser s hother hne)
      (fun _ hother hne => userPart_spares hchanged huser s hother hne) hfirst).1
  · have hne' : ¬ ((afterAgents (o.withSynthesize synthesize).script.handle config orders'
        changedFiles s).1.members username).Nonempty := hmembers ▸ hne
    refine Alike.trans (Alike.symm ?_) (hfirst.trans ?_)
    · exact pass_frame (fun other hother =>
        userPart_spares hchanged huser s hother (ne_of_mem_userEntries hne hother)) _
    · exact pass_frame (fun other hother =>
        userPart_spares hchanged huser s hother (ne_of_mem_userEntries hne' hother)) _

/-- A cycle that ends in alike states after pass 2 ends in alike states. -/
theorem cycle_alike {readable : String → Prop} {target : SynthesisTarget}
    (hspares : ∀ users : Finset String,
      PartSpares readable target (synthesizeGlobal config users)) {d : Disk}
    (h : Alike readable target (afterUsers o.script.handle config orders changedFiles ⟨d, []⟩).2
      (afterUsers (o.withSynthesize synthesize).script.handle config orders' changedFiles
        ⟨d, []⟩).2) :
    Alike readable target (o.cycle config orders changedFiles d)
      ((o.withSynthesize synthesize).cycle config orders' changedFiles d) := by
  have hglobal : ∀ (o : CycleOutcomes) (orders : CycleOrders), changedFiles ≠ [] →
      Alike readable target (afterUsers o.script.handle config orders changedFiles ⟨d, []⟩).2
        (o.cycle config orders changedFiles d) := by
    intro o orders hne
    unfold CycleOutcomes.cycle CycleScript.exec
    rw [process_exec _ _ _ _ _ hne]
    split
    · exact Alike.refl _
    · exact part_frame (hspares _) _
  by_cases hne : changedFiles = []
  · subst hne
    exact Alike.refl _
  · exact (hglobal o orders hne).symm.trans
      (h.trans (hglobal (o.withSynthesize synthesize) orders' hne))

end

/-- What a cycle writes to the folder of an agent is the same for all orders of its maps, and
whatever the syntheses of all other targets return; what it writes to the folder of a user, for
all orders and whatever the syntheses of other users and their agents return. -/
theorem targets_isolated (config : MemoryConfig) (orders orders' : CycleOrders)
    {changedFiles : List FileChanged} (hchanged : ∀ file ∈ changedFiles, IsNotified file)
    (d : Disk) (o : CycleOutcomes)
    (synthesize : SynthesisTarget → Option String → List SourceDoc → Except MemoryError String) :
    (∀ (username : String) (agentId : Uuid), Http.validateUsername username = .ok () →
      (∀ prior sources, synthesize (.agent username agentId.hyphenated) prior sources =
        o.synthesize (.agent username agentId.hyphenated) prior sources) →
      (o.cycle config orders changedFiles d).filesWritten (.agent username agentId.hyphenated) =
        ((o.withSynthesize synthesize).cycle config orders' changedFiles d).filesWritten
          (.agent username agentId.hyphenated)) ∧
      ∀ username : String, Http.validateUsername username = .ok () →
        (∀ (agentId : Uuid) prior sources,
          synthesize (.agent username agentId.hyphenated) prior sources =
            o.synthesize (.agent username agentId.hyphenated) prior sources) →
        (∀ prior sources, synthesize (.user username) prior sources =
          o.synthesize (.user username) prior sources) →
        (o.cycle config orders changedFiles d).filesWritten (.user username) =
          ((o.withSynthesize synthesize).cycle config orders' changedFiles d).filesWritten
            (.user username) := by
  have hglobal : ∀ users : Finset String,
      PartFor (fun _ => True) .global (synthesizeGlobal config users) :=
    fun users => worksFor_of_serves
      (synthesizeGlobal_serves config (fun _ _ _ _ => trivial) fun _ _ => trivial)
  have htarget : IsTarget .global := trivial
  constructor
  · intro username agentId huser hsame
    have husers : ∀ (o : CycleOutcomes) (orders : CycleOrders),
        Alike (agentReads username agentId) (.agent username agentId.hyphenated)
          (afterAgents o.script.handle config orders changedFiles ⟨d, []⟩).2
          (afterUsers o.script.handle config orders changedFiles ⟨d, []⟩).2 := by
      intro o orders
      rw [afterUsers_end]
      apply pass_frame
      intro other hother
      have htarget : IsTarget (.user other.1) := validUsername_of_userEntries hchanged hother
      exact spares_agentReads htarget huser (by simp) (userPart_for other fun _ _ => trivial)
    exact (cycle_alike (fun users => spares_agentReads htarget huser (by simp) (hglobal users))
      ((husers o orders).symm.trans ((agents_alike hchanged huser hsame ⟨d, []⟩).1.trans
        (husers (o.withSynthesize synthesize) orders')))).written
  · intro username huser hagents hsame
    exact (cycle_alike
      (fun users => spares_userReads htarget huser (by simp) (by simp) (hglobal users))
      (users_alike hchanged huser hagents hsame ⟨d, []⟩)).written

/-- Every synthesis and every embedding is answered, and folders list their names in order. -/
def CycleOutcomes.answering (today : NaiveDate) (reply : SynthesisTarget → String) :
    CycleOutcomes where
  today := today
  listing _ := IterationOrder.sorted String
  listing_perm _ _ _ := IterationOrder.sorted_perm
  synthesize target _ _ := .ok (reply target)
  embed texts := .ok ⟨"m", texts.map fun _ => ⟨[0x3f800000], Embedding.one_length_lt⟩⟩

/-- The language model fails for a user and its agents. -/
def failingFor (username reply : String) :
    SynthesisTarget → Option String → List SourceDoc → Except MemoryError String
  | .agent user _, _, _ => if user = username then .error .recvError else .ok reply
  | .user user, _, _ => if user = username then .error .recvError else .ok reply
  | .global, _, _ => .ok reply

/-- The maps are iterated the other way round. -/
def Synthesizer.CycleOrders.reversed : CycleOrders :=
  ⟨⟨List.reverse, List.reverse_perm⟩, ⟨List.reverse, List.reverse_perm⟩,
    ⟨List.reverse, List.reverse_perm⟩⟩

/-- What is written to alice's folder stays the same when the syntheses of bob fail and the maps
are iterated the other way round. -/
theorem alice_isolated_from_bob :
    ((CycleOutcomes.answering may19 fun _ => "Summary.").cycle .withDefaults .stored
        [noteOf "alice", noteOf "bob"] ∅).filesWritten (.user "alice") =
      [("alice/_synthesized/2026-05-19-01.md", "Summary.")] := by
  have hnotified : ∀ file ∈ [noteOf "alice", noteOf "bob"], IsNotified file := by
    intro file hfile
    have hname : file = noteOf "alice" ∨ file = noteOf "bob" := by simpa using hfile
    rcases hname with rfl | rfl
    · exact ⟨by decide +kernel, none, "a.md", by decide +kernel⟩
    · exact ⟨by decide +kernel, none, "a.md", by decide +kernel⟩
  rw [(targets_isolated .withDefaults .stored .reversed hnotified ∅ _
    (failingFor "bob" "Summary.")).2 "alice" (by decide +kernel) (fun _ _ _ => rfl)
    fun _ _ => rfl]
  decide +kernel

end Memory
end MemoryHub
