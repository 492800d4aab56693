import MemoryHub.Memory.CycleIsolation

/-!
# What a synthesis is requested for

A part of a cycle returns that its target has changed if its synthesis was answered and its
write has gone through to the end, and also if the answer was blank and nothing was written.
The next pass takes the summaries of the targets that are said to have changed.

Main results:

- Theorem `foldSources_lands`: when a part returns that its target has changed.
- Theorem `fedBy_iff`: when the sources of a request are those that were written.
- Theorem `requests_on_change_iff`: when that holds of all requests of a cycle.
-/

namespace MemoryHub
namespace Memory

open Collections Llm Prog Synthesizer

/-! ## What has happened to a summary -/

namespace CycleEvent

/-- A summary of the target has been stored. -/
def Writes (target : SynthesisTarget) : CycleEvent → Prop
  | ⟨.storageWrite path _, _, _, stored⟩ => stored = true ∧ InFolder target path
  | _ => False

/-- A summary of the target has been indexed. -/
def Indexes (target : SynthesisTarget) : CycleEvent → Prop
  | ⟨.indexInsert msg, response, _, _⟩ => response = .ok () ∧ InFolder target msg.path
  | _ => False

/-- The synthesis of the target has been answered with nothing to write. -/
def Blanks (config : MemoryConfig) (target : SynthesisTarget) : CycleEvent → Prop
  | ⟨.synthesize asked _ _, response, _, _⟩ => asked = target ∧ ∃ reply, response = .ok reply ∧
      chunkText reply config.chunkSize config.chunkOverlap = []
  | _ => False

theorem stored_of_writes {target : SynthesisTarget} {e : CycleEvent} (h : e.Writes target) :
    e.stored = true := by
  rcases e with ⟨call, response, d, stored⟩
  cases call with
  | storageWrite path content => exact h.1
  | _ => exact absurd h id

end CycleEvent

/-- One of the events is such an event. -/
def Happened (p : CycleEvent → Prop) (events : List CycleEvent) : Prop :=
  ∃ e ∈ events, p e

@[simp]
theorem happened_nil (p : CycleEvent → Prop) : ¬ Happened p [] := by
  rintro ⟨e, he, -⟩
  simp at he

@[simp]
theorem happened_cons (p : CycleEvent → Prop) (e : CycleEvent) (events : List CycleEvent) :
    Happened p (e :: events) ↔ p e ∨ Happened p events := by
  simp [Happened]

@[simp]
theorem happened_append (p : CycleEvent → Prop) (events events' : List CycleEvent) :
    Happened p (events ++ events') ↔ Happened p events ∨ Happened p events' := by
  simp [Happened, List.mem_append, or_and_right, exists_or]

/-- The path of the latest summary the scans of the target's folder have found, after one more
event: opening the folder starts a new scan, which has found nothing if the folder cannot be
opened, lists no summary, or does not let the size of the latest be read. -/
def noteScan (target : SynthesisTarget) (found : Option String) : CycleEvent → Option String
  | ⟨.readDir folder, response, _, _⟩ =>
      if folder = synthesisFolder target then
        (response.bind latestName).map (summaryPath target)
      else found
  | ⟨.fileSize path, response, _, _⟩ =>
      if found = some path ∧ response = none then none else found
  | _ => found

/-- The path the last scan of the target's folder has found. -/
def lastFound (target : SynthesisTarget) (events : List CycleEvent) : Option String :=
  events.foldl (noteScan target) none

theorem lastFound_snoc (target : SynthesisTarget) (events : List CycleEvent) (e : CycleEvent) :
    lastFound target (events ++ [e]) = noteScan target (lastFound target events) e := by
  rw [lastFound, List.foldl_append]
  rfl

/-- What is found is in the folder. -/
theorem noteScan_inFolder {target : SynthesisTarget} {found : Option String}
    (hfound : ∀ path, found = some path → InFolder target path) {e : CycleEvent} {path : String}
    (h : noteScan target found e = some path) : InFolder target path := by
  rcases e with ⟨call, response, d, stored⟩
  cases call with
  | readDir folder =>
      simp only [noteScan] at h
      split at h
      · rcases Option.map_eq_some_iff.mp h with ⟨name, hname, rfl⟩
        rcases Option.bind_eq_some_iff.mp hname with ⟨names, -, hlatest⟩
        exact ⟨name, (isSummaryName_latestName hlatest).no_slash, rfl⟩
      · exact hfound path h
  | fileSize asked =>
      simp only [noteScan] at h
      split at h
      · contradiction
      · exact hfound path h
  | _ => exact hfound path h

theorem lastFound_inFolder {target : SynthesisTarget} {events : List CycleEvent} {path : String}
    (h : lastFound target events = some path) : InFolder target path := by
  induction events using List.reverseRecOn generalizing path with
  | nil => simp [lastFound] at h
  | append_singleton events e ih =>
      rw [lastFound_snoc] at h
      exact noteScan_inFolder (fun _ hpath => ih hpath) h

/-- The call is about the target's summary. -/
def About (target : SynthesisTarget) : SynthesizerCall → Prop
  | .storageWrite path _ => InFolder target path
  | .synthesize asked _ _ => asked = target
  | .indexInsert msg => InFolder target msg.path
  | _ => False

/-- Nothing has happened to the target's summary from `s` to `t`. -/
structure Untouched (config : MemoryConfig) (target : SynthesisTarget) (s t : CycleState) :
    Prop where
  writes : Happened (CycleEvent.Writes target) t.events ↔
    Happened (CycleEvent.Writes target) s.events
  indexes : Happened (CycleEvent.Indexes target) t.events ↔
    Happened (CycleEvent.Indexes target) s.events
  blanks : Happened (CycleEvent.Blanks config target) t.events ↔
    Happened (CycleEvent.Blanks config target) s.events
  folder : ∀ path, InFolder target path → t.disk.lookup path = s.disk.lookup path

section

variable {config : MemoryConfig} {target : SynthesisTarget} {script : CycleScript}
  {s t u : CycleState}

theorem Untouched.refl (s : CycleState) : Untouched config target s s :=
  ⟨Iff.rfl, Iff.rfl, Iff.rfl, fun _ _ => rfl⟩

theorem Untouched.trans (h : Untouched config target s t) (h' : Untouched config target t u) :
    Untouched config target s u :=
  ⟨h'.writes.trans h.writes, h'.indexes.trans h.indexes, h'.blanks.trans h.blanks,
    fun path hpath => (h'.folder path hpath).trans (h.folder path hpath)⟩

/-- A write changes no other path. -/
theorem lookup_effect_write {path other : String} (hne : other ≠ path) (content : String)
    (stored : Bool) (d : Disk) :
    (CycleScript.effect d stored (.storageWrite path content)).lookup other = d.lookup other := by
  cases stored with
  | false => rfl
  | true => exact AList.lookup_insert_ne hne

/-- A call that is not about the target does not touch it. -/
theorem handle_untouched {c : SynthesizerCall} (hc : ¬ About target c) :
    Untouched config target s (script.handle c s).2 := by
  have hquiet : ∀ {d : Disk} {e : CycleEvent},
      ¬ e.Writes target → ¬ e.Indexes target → ¬ e.Blanks config target →
      (∀ path, InFolder target path → d.lookup path = s.disk.lookup path) →
        Untouched config target s ⟨d, s.events ++ [e]⟩ := by
    intro d e hw hi hb hfolder
    refine ⟨?_, ?_, ?_, hfolder⟩
    · simp [hw]
    · simp [hi]
    · simp [hb]
  cases c with
  | storageWrite path content =>
      have hnot : ¬ InFolder target path := hc
      refine hquiet (fun h => hnot h.2) id id ?_
      intro other hother
      have hne : other ≠ path := fun heq => hnot (heq ▸ hother)
      exact lookup_effect_write hne content _ s.disk
  | synthesize asked prior sources =>
      exact hquiet id id (fun h => hc h.1) fun _ _ => rfl
  | indexInsert msg => exact hquiet id (fun h => hc h.2) id fun _ _ => rfl
  | storageRead path => exact hquiet id id id fun _ _ => rfl
  | embed texts => exact hquiet id id id fun _ _ => rfl
  | readDir folder => exact hquiet id id id fun _ _ => rfl
  | fileSize path => exact hquiet id id id fun _ _ => rfl
  | today => exact hquiet id id id fun _ _ => rfl

/-- A call that only looks is about no target. -/
theorem not_about_of_looks {readable : String → Prop} {c : SynthesizerCall}
    (h : Looks readable c) (target : SynthesisTarget) : ¬ About target c := by
  cases c with
  | storageWrite path content => exact absurd h id
  | synthesize asked prior sources => exact absurd h id
  | indexInsert msg => exact absurd h id
  | storageRead path => exact id
  | embed texts => exact id
  | readDir folder => exact id
  | fileSize path => exact id
  | today => exact id

/-- A call that works for another target is not about this one. -/
theorem not_about_of_worksFor {readable : String → Prop} {other : SynthesisTarget}
    (hother : IsTarget other) (htarget : IsTarget target) (hne : other ≠ target)
    {c : SynthesizerCall} (h : WorksFor readable other c) : ¬ About target c := by
  cases c with
  | storageWrite path content => exact fun h' => hne (inFolder_unique hother htarget h h')
  | synthesize asked prior sources => exact fun h' => hne (h.symm.trans h')
  | indexInsert msg => exact fun h' => hne (inFolder_unique hother htarget h h')
  | storageRead path => exact id
  | embed texts => exact id
  | readDir folder => exact id
  | fileSize path => exact id
  | today => exact id

/-! ## Requests -/

/-- Each synthesis is requested where this holds of the events before it, its target, its
sources and the disk. -/
def AtRequests (G : List CycleEvent → SynthesisTarget → List SourceDoc → Disk → Prop)
    (events : List CycleEvent) : Prop :=
  ∀ pre e post asked prior sources, events = pre ++ e :: post →
    e.call = .synthesize asked prior sources → G pre asked sources e.disk

variable {G : List CycleEvent → SynthesisTarget → List SourceDoc → Disk → Prop}

theorem atRequests_snoc {events : List CycleEvent} {e : CycleEvent} (h : AtRequests G events)
    (he : ∀ asked prior sources, e.call = .synthesize asked prior sources →
      G events asked sources e.disk) : AtRequests G (events ++ [e]) := by
  intro pre e' post asked prior sources hsplit hcall
  rcases List.eq_nil_or_concat post with rfl | ⟨post, last, rfl⟩
  · rcases List.append_inj' hsplit rfl with ⟨rfl, heq⟩
    cases heq
    exact he asked prior sources hcall
  · have hsplit : events ++ [e] = (pre ++ e' :: post) ++ [last] := by
      rw [hsplit, List.concat_eq_append, List.append_assoc, List.cons_append]
    exact h pre e' post asked prior sources (List.append_inj' hsplit rfl).1 hcall

/-- A call keeps what holds at requests, unless it is a request where it does not hold. -/
theorem handle_atRequests {c : SynthesizerCall} (h : AtRequests G s.events)
    (hc : ∀ asked prior sources, c = .synthesize asked prior sources →
      G s.events asked sources s.disk) : AtRequests G (script.handle c s).2.events :=
  atRequests_snoc h hc

/-- From `s` to `t` the cycle has only looked around, at what is readable. -/
structure Looked (config : MemoryConfig) (readable : String → Prop) (s t : CycleState) : Prop where
  disk : t.disk = s.disk
  untouched : ∀ target, Untouched config target s t
  requests : ∀ G, AtRequests G s.events → AtRequests G t.events
  found : ∀ target, (∀ path, InFolder target path → ¬ readable path) →
    lastFound target t.events = lastFound target s.events

variable {readable readable' : String → Prop}

theorem Looked.refl (s : CycleState) : Looked config readable s s :=
  ⟨rfl, fun _ => .refl s, fun _ h => h, fun _ _ => rfl⟩

theorem Looked.trans (h : Looked config readable s t) (h' : Looked config readable t u) :
    Looked config readable s u :=
  ⟨h'.disk.trans h.disk, fun target => (h.untouched target).trans (h'.untouched target),
    fun G hs => h'.requests G (h.requests G hs),
    fun target hout => (h'.found target hout).trans (h.found target hout)⟩

theorem Looked.mono (h : Looked config readable s t)
    (hmono : ∀ path, readable path → readable' path) : Looked config readable' s t :=
  ⟨h.disk, h.untouched, h.requests,
    fun target hout => h.found target fun path hpath hread => hout path hpath (hmono path hread)⟩

/-- Looking elsewhere finds nothing in the target's folder. -/
theorem lastFound_handle {c : SynthesizerCall} (hc : Looks readable c)
    (hout : ∀ path, InFolder target path → ¬ readable path) :
    lastFound target (script.handle c s).2.events = lastFound target s.events := by
  unfold CycleScript.handle
  rw [lastFound_snoc]
  cases c with
  | readDir folder =>
      refine if_neg ?_
      rintro rfl
      have hname : '/' ∉ "a".toList := by decide
      exact hout _ ⟨"a", hname, rfl⟩ (hc "a" hname)
  | fileSize path =>
      refine if_neg ?_
      rintro ⟨hfound, -⟩
      exact hout path (lastFound_inFolder hfound) hc
  | _ => rfl

variable (config) in
/-- A part that only looks changes nothing. -/
theorem looks_wp {α : Type} {Q : α → Prop} {x : Synthesis α}
    (hx : Meets AnyResponse (Looks readable) Q x) (s : CycleState) :
    wp script.handle x (fun a t => Q a ∧ Looked config readable s t) s := by
  refine hx.wp ?_ (Looked.refl s)
  intro c t hc h
  have hkept : (script.handle c t).2.disk = t.disk := by
    cases c with
    | storageWrite path content => exact absurd hc id
    | _ => rfl
  refine ⟨trivial, h.trans ⟨hkept, fun target => handle_untouched (not_about_of_looks hc target),
    fun G ht => handle_atRequests ht ?_, fun target hout => lastFound_handle hc hout⟩⟩
  rintro asked prior sources rfl
  exact absurd hc id

end

/-! ## What a part returns -/

/-- Nothing has happened to the target's summary yet. -/
structure Fresh (config : MemoryConfig) (target : SynthesisTarget) (events : List CycleEvent) :
    Prop where
  writes : ¬ Happened (CycleEvent.Writes target) events
  indexes : ¬ Happened (CycleEvent.Indexes target) events
  blanks : ¬ Happened (CycleEvent.Blanks config target) events

/-- The target's part is done if its summary has been indexed, and was written then, or if the
answer was blank, and nothing was written. -/
structure Landed (config : MemoryConfig) (target : SynthesisTarget) (done : Prop)
    (events : List CycleEvent) : Prop where
  done_iff : done ↔ Happened (CycleEvent.Indexes target) events ∨
    Happened (CycleEvent.Blanks config target) events
  written : Happened (CycleEvent.Indexes target) events →
    Happened (CycleEvent.Writes target) events
  apart : Happened (CycleEvent.Writes target) events →
    ¬ Happened (CycleEvent.Blanks config target) events

section

variable {config : MemoryConfig} {target : SynthesisTarget} {script : CycleScript}
  {s t u : CycleState} {done : Prop}

theorem fresh_start (d : Disk) : Fresh config target (⟨d, []⟩ : CycleState).events :=
  ⟨happened_nil _, happened_nil _, happened_nil _⟩

theorem Fresh.of_untouched (h : Fresh config target s.events)
    (huntouched : Untouched config target s t) : Fresh config target t.events :=
  ⟨fun hw => h.writes (huntouched.writes.mp hw), fun hi => h.indexes (huntouched.indexes.mp hi),
    fun hb => h.blanks (huntouched.blanks.mp hb)⟩

theorem Landed.of_untouched (h : Landed config target done s.events)
    (huntouched : Untouched config target s t) : Landed config target done t.events := by
  refine ⟨?_, ?_, ?_⟩
  · rw [huntouched.indexes, huntouched.blanks]
    exact h.done_iff
  · rw [huntouched.indexes, huntouched.writes]
    exact h.written
  · rw [huntouched.writes, huntouched.blanks]
    exact h.apart

/-- Nothing has happened, and the part is not done. -/
theorem Fresh.landed {events : List CycleEvent} (h : Fresh config target events)
    (hdone : ¬ done) : Landed config target done events :=
  ⟨by simp [hdone, h.indexes, h.blanks], fun hi => absurd hi h.indexes,
    fun hw => absurd hw h.writes⟩

theorem storageWrite_wp {path content : String} {Q : Except MemoryError Unit → CycleState → Prop}
    (hfail : ∀ e d stored, Q (.error e)
      ⟨d, s.events ++ [⟨.storageWrite path content, .error e, s.disk, stored⟩]⟩)
    (hok : ∀ d, Q (.ok ()) ⟨d, s.events ++ [⟨.storageWrite path content, .ok (), s.disk, true⟩]⟩) :
    wp script.handle (Synthesizer.storageWrite path content).run Q s := by
  change Q (script.handle (.storageWrite path content) s).1
    (script.handle (.storageWrite path content) s).2
  unfold CycleScript.handle CycleScript.respond
  cases script.writeFails s.events with
  | none => exact hok _
  | some failure => exact hfail failure.1 _ failure.2

theorem embed_wp {texts : List String} {Q : Except MemoryError EmbedResult → CycleState → Prop}
    (h : ∀ response, Q response
      ⟨s.disk, s.events ++ [⟨.embed texts, response, s.disk, false⟩]⟩) :
    wp script.handle (Synthesizer.embed texts).run Q s :=
  h _

theorem requestSynthesis_wp {prior : Option String} {sources : List SourceDoc}
    {Q : Except MemoryError String → CycleState → Prop}
    (h : ∀ response, Q response
      ⟨s.disk, s.events ++ [⟨.synthesize target prior sources, response, s.disk, false⟩]⟩) :
    wp script.handle (requestSynthesis target prior sources).run Q s :=
  h _

theorem indexInsert_wp {path content model : String} {chunks : List Chunk}
    {Q : Except MemoryError Unit → CycleState → Prop}
    (h : ∀ (msg : IndexInsert) response, msg.path = path →
      Q response ⟨s.disk, s.events ++ [⟨.indexInsert msg, response, s.disk, false⟩]⟩) :
    wp script.handle (indexInsert path content chunks model).run Q s := by
  unfold indexInsert wp
  simp only [ask, ExceptT.run_mk, exec_perform]
  unfold CycleScript.handle CycleScript.respond
  cases script.indexFails s.events with
  | none => exact h _ _ rfl
  | some e => exact h _ _ rfl

/-- A write that has gone through to the end has been stored and indexed. -/
theorem writeSynthesis_lands (hfresh : Fresh config target s.events) {path content : String}
    (hpath : InFolder target path)
    (hchunks : chunkText content config.chunkSize config.chunkOverlap ≠ []) :
    wp script.handle (writeSynthesis config path content).run
      (fun result t => Landed config target (result = .ok ()) t.events) s := by
  have hsome : (chunkText content config.chunkSize config.chunkOverlap).isEmpty = false := by
    simpa using hchunks
  unfold writeSynthesis
  simp only [hsome, Bool.false_eq_true, if_false]
  apply wp_run_bind
  apply storageWrite_wp
  · intro e d stored
    refine ⟨fun _ h => absurd h (by simp), fun _ _ => ⟨?_, ?_, ?_⟩⟩
    · simp [hfresh.indexes, hfresh.blanks, CycleEvent.Indexes, CycleEvent.Blanks]
    · simp [hfresh.indexes, CycleEvent.Indexes]
    · simp [hfresh.blanks, CycleEvent.Blanks]
  · intro d
    refine ⟨fun _ _ => ?_, fun _ h => absurd h (by simp)⟩
    apply wp_run_bind
    apply embed_wp
    intro embedding
    refine ⟨fun embedResult _ => ?_, fun e _ => ⟨?_, ?_, ?_⟩⟩
    · apply indexInsert_wp
      intro msg response hmsg
      refine ⟨?_, ?_, ?_⟩
      · simp [hfresh.indexes, hfresh.blanks, CycleEvent.Indexes, CycleEvent.Blanks, hmsg, hpath]
      · simp [CycleEvent.Writes, hpath]
      · simp [hfresh.blanks, CycleEvent.Blanks]
    · simp [hfresh.indexes, hfresh.blanks, CycleEvent.Indexes, CycleEvent.Blanks]
    · simp [hfresh.indexes, CycleEvent.Indexes]
    · simp [hfresh.blanks, CycleEvent.Blanks]

/-- Once the sources are folded in, the target's part is done. -/
theorem foldSources_lands (hfresh : Fresh config target s.events) (sources : List SourceDoc) :
    wp script.handle (foldSources config target sources).run
      (fun result t => Landed config target (result = .ok ()) t.events) s := by
  have hall : ∀ path, InFolder target path → InFolder target path := fun _ h => h
  apply wp_run_bind
  apply wp_mono (looks_wp config (priorSummary_looks hall) s)
  rintro prior t ⟨-, ht⟩
  have hfresh := hfresh.of_untouched (ht.untouched target)
  refine ⟨fun prior _ => ?_, fun e _ => hfresh.landed (by simp)⟩
  apply wp_run_bind
  apply requestSynthesis_wp
  intro response
  have hasked : ∀ (e : CycleEvent), ¬ e.Writes target → ¬ e.Indexes target →
      ¬ e.Blanks config target → Fresh config target (t.events ++ [e]) := by
    intro e hw hi hb
    exact ⟨by simp [hfresh.writes, hw], by simp [hfresh.indexes, hi], by simp [hfresh.blanks, hb]⟩
  refine ⟨?_, ?_⟩
  · rintro reply rfl
    apply wp_run_lift_bind
    apply wp_mono (looks_wp config (ask_meets (c := .today) trivial) _)
    rintro today u ⟨-, hu⟩
    apply wp_run_lift_bind
    apply wp_mono (looks_wp config (currentSynthesisPath_looks hall _ _) _)
    rintro path v ⟨hpath, hv⟩
    have huntouched := (hu.trans hv).untouched target
    by_cases hchunks : chunkText reply config.chunkSize config.chunkOverlap = []
    · -- A blank reply is not written, but the part is done.
      have hskipped : writeSynthesis config path reply = Pure.pure () := by
        unfold writeSynthesis
        simp [hchunks]
      rw [hskipped]
      refine Landed.of_untouched ⟨?_, ?_, ?_⟩ huntouched
      · simp [CycleEvent.Blanks, hchunks]
      · simp [hfresh.indexes, CycleEvent.Indexes]
      · simp [hfresh.writes, CycleEvent.Writes]
    · refine writeSynthesis_lands ((hasked _ id id ?_).of_untouched huntouched) hpath.inFolder
        hchunks
      rintro ⟨-, reply', hreply, hblank⟩
      rw [Except.ok.inj hreply] at hchunks
      exact hchunks hblank
  · rintro e rfl
    refine (hasked _ id id ?_).landed (by simp)
    rintro ⟨-, reply, hreply, -⟩
    exact absurd hreply (by simp)

variable {G : List CycleEvent → SynthesisTarget → List SourceDoc → Disk → Prop}

/-- Folding in the sources makes one request, with these sources. -/
theorem foldSources_atRequests (h : AtRequests G s.events) {sources : List SourceDoc}
    (hG : ∀ t, Looked config (InFolder target) s t → G t.events target sources s.disk) :
    wp script.handle (foldSources config target sources).run
      (fun _ t => AtRequests G t.events) s := by
  have hall : ∀ path, InFolder target path → InFolder target path := fun _ h => h
  apply wp_run_bind
  apply wp_mono (looks_wp config (priorSummary_looks hall) s)
  rintro prior t ⟨-, ht⟩
  refine ⟨fun prior _ => ?_, fun e _ => ht.requests G h⟩
  apply wp_run_bind
  apply requestSynthesis_wp
  intro response
  have hasked : AtRequests G (t.events ++
      [⟨.synthesize target prior sources, response, t.disk, false⟩]) := by
    apply atRequests_snoc (ht.requests G h)
    intro asked prior' sources' hcall
    rcases SynthesizerCall.synthesize.inj hcall with ⟨rfl, -, rfl⟩
    rw [ht.disk]
    exact hG t ht
  refine ⟨fun reply _ => ?_, fun e _ => hasked⟩
  apply wp_run_lift_bind
  apply wp_mono (looks_wp config (ask_meets (c := .today) trivial) _)
  rintro today u ⟨-, hu⟩
  apply wp_run_lift_bind
  apply wp_mono (looks_wp config (currentSynthesisPath_looks hall _ _) _)
  rintro path v ⟨-, hv⟩
  -- What is left makes no more requests.
  have hrest : MeetsOk AnyResponse (fun c => ∀ asked prior sources, c ≠ .synthesize asked prior
      sources) (fun _ => True) (writeSynthesis config path reply) :=
    writeSynthesis_meets config (by simp) (by simp) (by simp)
  refine wp_mono (hrest.wp ?_ ((hu.trans hv).requests G hasked)) fun _ _ h => h.2
  intro c w hc hw
  exact ⟨trivial, handle_atRequests hw fun asked prior sources heq => absurd heq (hc _ _ _)⟩

end

/-! ## Latest summaries -/

/-- The path is that of the target's latest summary, as its folder is listed in some order. -/
def IsLatestPath (d : Disk) (target : SynthesisTarget) (path : String) : Prop :=
  ∃ names name, List.Perm names (d.namesIn (synthesisFolder target)) ∧
    latestName (names.map some) = some name ∧ path = summaryPath target name

/-- The source is the target's latest summary. -/
def IsLatest (d : Disk) (target : SynthesisTarget) (source : SourceDoc) : Prop :=
  IsLatestPath d target source.name ∧ d.lookup source.name = some source.content

/-- The source is the summary that the last scan of the target's folder has found. -/
def IsFound (events : List CycleEvent) (d : Disk) (target : SynthesisTarget)
    (source : SourceDoc) : Prop :=
  lastFound target events = some source.name ∧ d.lookup source.name = some source.content

theorem IsLatest.inFolder {d : Disk} {target : SynthesisTarget} {source : SourceDoc}
    (h : IsLatest d target source) : InFolder target source.name := by
  rcases h.1 with ⟨names, name, -, hlatest, hname⟩
  exact ⟨name, (isSummaryName_latestName hlatest).no_slash, hname⟩

theorem IsFound.inFolder {events : List CycleEvent} {d : Disk} {target : SynthesisTarget}
    {source : SourceDoc} (h : IsFound events d target source) : InFolder target source.name :=
  lastFound_inFolder h.1

section

variable {script : CycleScript} {s : CycleState}

/-- A scan of the target's folder finds what it returns. -/
theorem lastFound_findLatest (script : CycleScript) (target : SynthesisTarget) (s : CycleState) :
    lastFound target (script.exec (findLatestSynthesisFile (synthesisFolder target)) s).2.events =
      (script.exec (findLatestSynthesisFile (synthesisFolder target)) s).1.map fun file =>
        summaryPath target file.1 := by
  unfold CycleScript.exec findLatestSynthesisFile
  rw [exec_bind]
  simp only [ask, exec_perform, CycleScript.handle, CycleScript.respond]
  cases script.namesSeen s.events (synthesisFolder target) s.disk with
  | none =>
      simp only [exec_pure, lastFound_snoc, Option.map_none]
      exact if_pos rfl
  | some names =>
      simp only [Option.map_some]
      cases hlatest : latestName (names.map some) with
      | none =>
          simp only [exec_pure, lastFound_snoc]
          rw [noteScan, if_pos rfl, Option.bind_some, hlatest]
          rfl
      | some name =>
          simp only [exec_bind, exec_perform, CycleScript.handle, CycleScript.respond]
          generalize (if script.sizeFails _ = true then none else _ : Option Nat) = size
          have hscanned : ∀ found, noteScan target found
              ⟨.readDir (synthesisFolder target), some (names.map some), s.disk, false⟩ =
                some (summaryPath target name) := by
            intro found
            rw [noteScan, if_pos rfl, Option.bind_some, hlatest]
            rfl
          cases size with
          | none =>
              simp only [exec_pure, lastFound_snoc, hscanned]
              exact if_pos ⟨rfl, rfl⟩
          | some size =>
              simp only [exec_pure, lastFound_snoc, hscanned]
              exact if_neg (by simp)

/-- What is served for a target is what the scan has found. -/
theorem getLatestSynthesisFile_wp (config : MemoryConfig) (target : SynthesisTarget)
    (s : CycleState) :
    wp script.handle (getLatestSynthesisFile target) (fun latest t =>
      Looked config (InFolder target) s t ∧ lastFound target t.events = latest ∧
        ∀ path, latest = some path → InFolder target path ∧
          ∃ content, s.disk.lookup path = some content) s := by
  have hlooked : Looked config (InFolder target) s
      (Prog.exec script.handle (getLatestSynthesisFile target) s).2 :=
    (looks_wp config (getLatestSynthesisFile_looks fun _ h => h) s).2
  refine ⟨hlooked, ?_, ?_⟩
  · have hfound := lastFound_findLatest script target s
    unfold CycleScript.exec at hfound
    unfold getLatestSynthesisFile
    rw [exec_bind]
    exact hfound
  · intro path hpath
    rcases findLatest_exec script (synthesisFolder target) s with ⟨events, hexec⟩
    unfold CycleScript.exec at hexec
    unfold getLatestSynthesisFile at hpath
    rw [exec_bind, hexec] at hpath
    rcases Option.map_eq_some_iff.mp hpath with ⟨file, hfile, rfl⟩
    exact latestIn_inFolder hfile

/-- A read returns what is stored, or fails, and scans nothing. -/
theorem storageRead_wp (config : MemoryConfig) {readable : String → Prop} {path : String}
    (hpath : readable path) {Q : Except MemoryError (Option String) → CycleState → Prop}
    (h : ∀ t, Looked config readable s t →
      (∀ target, lastFound target t.events = lastFound target s.events) →
        (∀ e, Q (.error e) t) ∧ Q (.ok (s.disk.lookup path)) t) :
    wp script.handle (Synthesizer.storageRead path).run Q s := by
  have hread : Meets AnyResponse (Looks readable) (fun _ => True)
      (Synthesizer.storageRead path).run := ⟨hpath, fun _ _ => trivial⟩
  have hlooked : Looked config readable s
      (Prog.exec script.handle (Synthesizer.storageRead path).run s).2 :=
    (looks_wp config hread s).2
  rcases h _ hlooked (fun target => lastFound_snoc target s.events _) with ⟨hfail, hfound⟩
  unfold wp
  have hresult :
      (∃ e, (Prog.exec script.handle (Synthesizer.storageRead path).run s).1 = .error e) ∨
      (Prog.exec script.handle (Synthesizer.storageRead path).run s).1 =
        .ok (s.disk.lookup path) := by
    change (∃ e, (script.handle (.storageRead path) s).1 = .error e) ∨
      (script.handle (.storageRead path) s).1 = .ok (s.disk.lookup path)
    unfold CycleScript.handle CycleScript.respond
    cases script.readFails s.events with
    | none => exact Or.inr rfl
    | some e => exact Or.inl ⟨e, rfl⟩
  rcases hresult with ⟨e, herror⟩ | hok
  · rw [herror]
    exact hfail e
  · rw [hok]
    exact hfound

/-- Lies in the folder of one of the targets. -/
def InFolders (targets : List SynthesisTarget) (path : String) : Prop :=
  ∃ target ∈ targets, InFolder target path

/-- The folder of a further target is none of theirs. -/
theorem not_inFolders {target : SynthesisTarget} {targets : List SynthesisTarget}
    (htargets : ∀ asked ∈ target :: targets, IsTarget asked) (hnew : target ∉ targets)
    {path : String} (hpath : InFolder target path) : ¬ InFolders targets path := by
  rintro ⟨other, hother, hin⟩
  have hsame := inFolder_unique (htargets target List.mem_cons_self)
    (htargets other (List.mem_cons_of_mem _ hother)) hpath hin
  exact hnew (hsame ▸ hother)

/-- The sources read are the summaries found in the folders of the targets that have one. -/
theorem readSummaries_wp (config : MemoryConfig) {targets : List SynthesisTarget}
    (htargets : ∀ target ∈ targets, IsTarget target) (hnodup : targets.Nodup)
    (sources : List SourceDoc) (s : CycleState) :
    wp script.handle (readSummaries targets sources).run (fun result t =>
      Looked config (InFolders targets) s t ∧ ∀ found, result = .ok found →
        ∃ docs, found = sources ++ docs ∧ List.Forall₂ (IsFound t.events s.disk)
          (targets.filter fun target => (lastFound target t.events).isSome) docs) s := by
  induction targets generalizing sources s with
  | nil =>
      refine ⟨Looked.refl s, ?_⟩
      intro found hfound
      refine ⟨[], ?_, List.Forall₂.nil⟩
      rw [List.append_nil]
      exact (Except.ok.inj hfound).symm
  | cons target targets ih =>
      rcases List.nodup_cons.mp hnodup with ⟨hnew, hrest⟩
      have htail : ∀ asked ∈ targets, IsTarget asked :=
        fun asked h => htargets asked (List.mem_cons_of_mem _ h)
      -- The scans of the other folders leave what was found in this one.
      have hkept : ∀ {t u : CycleState}, Looked config (InFolders targets) t u →
          lastFound target u.events = lastFound target t.events :=
        fun h => h.found target fun _ hpath => not_inFolders htargets hnew hpath
      have hfirst : ∀ path, InFolder target path → InFolders (target :: targets) path :=
        fun _ h => ⟨target, List.mem_cons_self, h⟩
      have hothers : ∀ path, InFolders targets path → InFolders (target :: targets) path :=
        fun _ h => h.imp fun _ h => ⟨List.mem_cons_of_mem _ h.1, h.2⟩
      unfold readSummaries
      apply wp_run_lift_bind
      apply wp_mono (getLatestSynthesisFile_wp config target s)
      rintro latest t ⟨ht, hlatest, hsome⟩
      cases latest with
      | none =>
          apply wp_mono (ih htail hrest sources t)
          rintro result u ⟨hu, hfound⟩
          rw [List.filter_cons_of_neg (by simp [hkept hu, hlatest]), ← ht.disk]
          exact ⟨(ht.mono hfirst).trans (hu.mono hothers), hfound⟩
      | some path =>
          rcases hsome path rfl with ⟨hfolder, content, hcontent⟩
          apply wp_run_bind
          apply storageRead_wp config hfolder
          intro u hu hread
          have hlooked := (ht.trans hu).mono hfirst
          refine ⟨fun e => ⟨fun _ h => absurd h (by simp), fun e _ => ⟨hlooked, by simp⟩⟩, ?_⟩
          refine ⟨?_, fun _ h => absurd h (by simp)⟩
          intro read hok
          rw [ht.disk, hcontent] at hok
          rw [← Except.ok.inj hok]
          dsimp only
          apply wp_mono (ih htail hrest (sources ++ [SourceDoc.mk path content]) u)
          rintro result v ⟨hv, hfound⟩
          refine ⟨hlooked.trans (hv.mono hothers), ?_⟩
          intro found hresult
          rcases hfound found hresult with ⟨docs, rfl, hdocs⟩
          have hscanned : lastFound target v.events = some path := by
            rw [hkept hv, hread, hlatest]
          rw [List.filter_cons_of_pos (by simp [hscanned])]
          rw [(ht.trans hu).disk] at hdocs
          refine ⟨⟨path, content⟩ :: docs, by simp, ?_⟩
          exact List.Forall₂.cons ⟨hscanned, hcontent⟩ hdocs

end

/-! ## Requests that are fed by change -/

section

variable {κ : Type} [LinearOrder κ]

/-- The sources are the latest summaries of exactly the targets of the tier below that have been
written, and there are some. -/
def FedBy (below : κ → SynthesisTarget) (events : List CycleEvent) (sources : List SourceDoc)
    (d : Disk) : Prop :=
  ∃ keys : Finset κ, keys.Nonempty ∧
    (∀ key, key ∈ keys ↔
      IsTarget (below key) ∧ Happened (CycleEvent.Writes (below key)) events) ∧
    List.Forall₂ (IsLatest d) (keys.sort.map below) sources

/-- In the tier below, every summary that has been stored has also been indexed, and the last scan
of its folder has found the latest; and no summary has been found of a target whose answer was
blank. -/
def LandWhole (config : MemoryConfig) (below : κ → SynthesisTarget) (events : List CycleEvent)
    (d : Disk) : Prop :=
  ∀ key, IsTarget (below key) →
    (Happened (CycleEvent.Writes (below key)) events →
      Happened (CycleEvent.Indexes (below key)) events ∧
        ∃ path, lastFound (below key) events = some path ∧ IsLatestPath d (below key) path) ∧
    (Happened (CycleEvent.Blanks config (below key)) events →
      lastFound (below key) events = none)

/-- The targets of the tier below whose parts are done. -/
structure Counted (config : MemoryConfig) (below : κ → SynthesisTarget) (keys : Finset κ)
    (events : List CycleEvent) : Prop where
  targets : ∀ key ∈ keys, IsTarget (below key)
  landed : ∀ key, IsTarget (below key) → Landed config (below key) (key ∈ keys) events

/-- Sources tell in whose folders they are. -/
theorem targets_eq_of_sources {R R' : SynthesisTarget → SourceDoc → Prop}
    (hR : ∀ target source, R target source → InFolder target source.name)
    (hR' : ∀ target source, R' target source → InFolder target source.name)
    {targets targets' : List SynthesisTarget} {sources : List SourceDoc}
    (htargets : ∀ target ∈ targets, IsTarget target)
    (htargets' : ∀ target ∈ targets', IsTarget target) (h : List.Forall₂ R targets sources)
    (h' : List.Forall₂ R' targets' sources) : targets = targets' := by
  induction h generalizing targets' with
  | nil =>
      cases h'
      rfl
  | cons hsource _ ih =>
      cases h' with
      | cons hsource' hrest' =>
          rw [inFolder_unique (htargets _ List.mem_cons_self) (htargets' _ List.mem_cons_self)
            (hR _ _ hsource) (hR' _ _ hsource')]
          rw [ih (fun target ht => htargets target (List.mem_cons_of_mem _ ht))
            (fun target ht => htargets' target (List.mem_cons_of_mem _ ht)) hrest']

/-- Sorting commutes with leaving out. -/
theorem sort_filter (keys : Finset κ) (p : κ → Prop) [DecidablePred p] :
    (keys.filter p).sort = keys.sort.filter fun key => p key := by
  apply List.Perm.eq_of_pairwise' (Finset.pairwise_sort _ _)
    ((Finset.pairwise_sort keys _).filter _)
  rw [List.perm_ext_iff_of_nodup (Finset.sort_nodup _ _) ((Finset.sort_nodup _ _).filter _)]
  simp

/-- The targets in whose folders the last scan has found a summary. -/
def foundKeys (below : κ → SynthesisTarget) (keys : Finset κ) (events : List CycleEvent) :
    Finset κ :=
  keys.filter fun key => (lastFound (below key) events).isSome = true

omit [LinearOrder κ] in
theorem mem_foundKeys {below : κ → SynthesisTarget} {keys : Finset κ} {events : List CycleEvent}
    {key : κ} : key ∈ foundKeys below keys events ↔
      key ∈ keys ∧ (lastFound (below key) events).isSome = true :=
  Finset.mem_filter

theorem filter_lastFound (below : κ → SynthesisTarget) (keys : Finset κ)
    (events : List CycleEvent) :
    (keys.sort.map below).filter (fun target => (lastFound target events).isSome) =
      (foundKeys below keys events).sort.map below := by
  rw [foundKeys, sort_filter, List.filter_map]
  simp only [Bool.decide_eq_true]
  rfl

theorem isTarget_of_mem_sort {below : κ → SynthesisTarget} {known : Finset κ}
    (hknown : ∀ key ∈ known, IsTarget (below key)) {target : SynthesisTarget}
    (h : target ∈ known.sort.map below) : IsTarget target := by
  rcases List.mem_map.mp h with ⟨key, hkey, rfl⟩
  exact hknown key ((Finset.mem_sort _).mp hkey)

section

variable {config : MemoryConfig} {below : κ → SynthesisTarget} {keys : Finset κ}
  {events : List CycleEvent} {sources : List SourceDoc} {d : Disk}

/-- Sources that are those written are found in the folders of what was written, and are the
latest there. -/
theorem FedBy.found (h : FedBy below events sources d) (hinj : Function.Injective below)
    (hcounted : Counted config below keys events)
    (hsources : List.Forall₂ (IsFound events d) ((foundKeys below keys events).sort.map below)
      sources) {key : κ} (htarget : IsTarget (below key)) :
    (Happened (CycleEvent.Writes (below key)) events ↔ key ∈ foundKeys below keys events) ∧
      (key ∈ foundKeys below keys events →
        ∃ path, lastFound (below key) events = some path ∧ IsLatestPath d (below key) path) := by
  rcases h with ⟨written, -, hwritten, hlatest⟩
  have hsame : written.sort.map below = (foundKeys below keys events).sort.map below :=
    targets_eq_of_sources (fun _ _ => IsLatest.inFolder) (fun _ _ => IsFound.inFolder)
      (fun _ => isTarget_of_mem_sort fun key hkey => ((hwritten key).mp hkey).1)
      (fun _ => isTarget_of_mem_sort fun key hkey =>
        hcounted.targets key (mem_foundKeys.mp hkey).1) hlatest hsources
  have hkeys : key ∈ written ↔ key ∈ foundKeys below keys events := by
    rw [← Finset.mem_sort (· ≤ ·), ← List.mem_map_of_injective hinj, hsame,
      List.mem_map_of_injective hinj, Finset.mem_sort]
  constructor
  · rw [← hkeys, hwritten key, and_iff_right htarget]
  · intro hfound
    rw [hsame] at hlatest
    have hboth := List.Forall₂.mp
      (S := fun target _ => (∃ path, lastFound target events = some path ∧
        IsLatestPath d target path) ∧ True)
      (fun _ source hl hf => ⟨⟨source.name, hf.1, hl.1⟩, trivial⟩) hlatest hsources
    exact ((List.forall₂_and_left _ _).mp hboth).1 _
      (List.mem_map_of_mem ((Finset.mem_sort _).mpr hfound))

/-- Where the sources are those written, what was written has landed whole. -/
theorem FedBy.landWhole (h : FedBy below events sources d) (hinj : Function.Injective below)
    (hcounted : Counted config below keys events)
    (hsources : List.Forall₂ (IsFound events d) ((foundKeys below keys events).sort.map below)
      sources) : LandWhole config below events d := by
  intro key htarget
  have hlanded := hcounted.landed key htarget
  rcases h.found hinj hcounted hsources htarget with ⟨hwritten, hlatest⟩
  constructor
  · intro hwrites
    have hfound := hwritten.mp hwrites
    refine ⟨?_, hlatest hfound⟩
    rcases hlanded.done_iff.mp (mem_foundKeys.mp hfound).1 with hindexes | hblanks
    · exact hindexes
    · exact absurd hblanks (hlanded.apart hwrites)
  · intro hblanks
    by_contra hsome
    have hkey := hlanded.done_iff.mpr (Or.inr hblanks)
    have hfound := mem_foundKeys.mpr ⟨hkey, Option.isSome_iff_ne_none.mpr hsome⟩
    exact hlanded.apart (hwritten.mpr hfound) hblanks

omit [LinearOrder κ] in
/-- Where what was written has landed whole, what was written is what is found. -/
theorem LandWhole.found (h : LandWhole config below events d)
    (hcounted : Counted config below keys events) (key : κ) :
    key ∈ foundKeys below keys events ↔
      IsTarget (below key) ∧ Happened (CycleEvent.Writes (below key)) events := by
  rw [mem_foundKeys]
  constructor
  · rintro ⟨hkey, hsome⟩
    have htarget := hcounted.targets key hkey
    have hlanded := hcounted.landed key htarget
    refine ⟨htarget, ?_⟩
    rcases hlanded.done_iff.mp hkey with hindexes | hblanks
    · exact hlanded.written hindexes
    · rw [(h key htarget).2 hblanks] at hsome
      contradiction
  · rintro ⟨htarget, hwrites⟩
    rcases (h key htarget).1 hwrites with ⟨hindexes, path, hpath, -⟩
    refine ⟨(hcounted.landed key htarget).done_iff.mpr (Or.inl hindexes), ?_⟩
    rw [hpath, Option.isSome_some]

/-- Where what was written has landed whole, the sources are those written. -/
theorem LandWhole.fedBy (h : LandWhole config below events d)
    (hcounted : Counted config below keys events) (hne : sources ≠ [])
    (hsources : List.Forall₂ (IsFound events d) ((foundKeys below keys events).sort.map below)
      sources) : FedBy below events sources d := by
  refine ⟨foundKeys below keys events, ?_, h.found hcounted, ?_⟩
  · rw [Finset.nonempty_iff_ne_empty]
    intro hempty
    rw [hempty, Finset.sort_empty, List.map_nil] at hsources
    cases hsources
    exact hne rfl
  · -- Each source found is the latest, as its summary has been written.
    have hmem := (List.forall₂_and_left _ _).mpr ⟨fun target htarget => htarget, hsources⟩
    refine hmem.imp ?_
    rintro target source ⟨htarget, hname, hcontent⟩
    rcases List.mem_map.mp htarget with ⟨key, hkey, rfl⟩
    rcases (h.found hcounted key).mp ((Finset.mem_sort _).mp hkey) with ⟨htarget, hwrites⟩
    rcases ((h key htarget).1 hwrites).2 with ⟨path, hpath, hlatest⟩
    rw [hname, Option.some.injEq] at hpath
    exact ⟨hpath ▸ hlatest, hcontent⟩

/-- The sources of a request are those that were written exactly if what has been written below
has landed whole. -/
theorem fedBy_iff (hinj : Function.Injective below) (h : Counted config below keys events)
    (hne : sources ≠ []) (hsources : List.Forall₂ (IsFound events d)
      ((keys.sort.map below).filter fun target => (lastFound target events).isSome) sources) :
    FedBy below events sources d ↔ LandWhole config below events d := by
  rw [filter_lastFound] at hsources
  exact ⟨fun hfed => hfed.landWhole hinj h hsources, fun hwhole => hwhole.fedBy h hne hsources⟩

end

end

/-! ## Parts -/

section

variable {config : MemoryConfig} {target : SynthesisTarget} {script : CycleScript}
  {s t : CycleState}

/-- A part for another target does not touch this one. -/
theorem part_untouched {other : SynthesisTarget} (hother : IsTarget other)
    (htarget : IsTarget target) (hne : other ≠ target) {α : Type} {x : FallibleSynthesis α}
    (hx : PartFor (fun _ => True) other x) (s : CycleState) :
    Untouched config target s (Prog.exec script.handle x.run s).2 := by
  refine (Meets.exec_keeps hx ?_ (Untouched.refl s)).2
  intro c t hc ht
  exact ⟨trivial, ht.trans (handle_untouched (not_about_of_worksFor hother htarget hne hc))⟩

/-- A part that looks for its sources, and then folds them in or returns that there are none. -/
theorem lookedPart_lands {β : Type} {Q : β → Prop} {x : FallibleSynthesis β}
    {f : β → FallibleSynthesis Bool} (hx : MeetsOk AnyResponse (Looks fun _ => True) Q x)
    (hf : ∀ b, f b = Pure.pure false ∨
      ∃ sources, f b = foldSources config target sources >>= fun _ => Pure.pure true)
    (hfresh : Fresh config target s.events) :
    wp script.handle (x >>= f).run
      (fun result t => Landed config target (result = .ok true) t.events) s := by
  apply wp_run_bind
  apply wp_mono (looks_wp config hx s)
  rintro result t ⟨-, ht⟩
  have hfresh := hfresh.of_untouched (ht.untouched target)
  refine ⟨fun b _ => ?_, fun e _ => hfresh.landed (by simp)⟩
  rcases hf b with hnone | ⟨sources, hsources⟩
  · rw [hnone]
    exact hfresh.landed (by simp)
  · rw [hsources]
    apply wp_run_bind
    apply wp_mono (foldSources_lands hfresh sources)
    intro result u hu
    refine ⟨?_, ?_⟩
    · rintro ⟨⟩ hok
      have hdone : (result = .ok ()) = ((Except.ok true : Except MemoryError Bool) = .ok true) := by
        simp [hok]
      rw [hdone] at hu
      exact hu
    · rintro e herror
      have hdone : (result = .ok ()) = ((Except.error e : Except MemoryError Bool) = .ok true) := by
        simp [herror]
      rw [hdone] at hu
      exact hu

theorem agentPart_lands {entry : Σ _ : String × Uuid, Finset String}
    (hfresh : Fresh config (.agent entry.1.1 entry.1.2.hyphenated) s.events) :
    wp script.handle (agentPart config entry).run (fun result t =>
      Landed config (.agent entry.1.1 entry.1.2.hyphenated) (result = .ok true) t.events) s := by
  refine lookedPart_lands (readChanged_looks (fun _ _ => trivial) [] []) ?_ hfresh
  rintro ⟨sources, deleted⟩
  dsimp only
  split
  · exact Or.inl rfl
  · exact Or.inr ⟨_, rfl⟩

theorem userPart_lands {entry : Σ _ : String, Finset Uuid}
    (hfresh : Fresh config (.user entry.1) s.events) :
    wp script.handle (userPart config entry).run (fun result t =>
      Landed config (.user entry.1) (result = .ok true) t.events) s := by
  refine lookedPart_lands (readSummaries_looks (fun _ _ _ _ => trivial) []) ?_ hfresh
  intro sources
  split
  · exact Or.inl rfl
  · exact Or.inr ⟨_, rfl⟩

variable {ε : Type} {part : ε → FallibleSynthesis Bool} {entries : List ε}

/-- In a pass with at most one part for the target, all others being for other targets, that part
is done exactly as it would be alone. -/
theorem pass_lands (own : ε → Prop) (hnodup : entries.Nodup)
    (honly : ∀ entry ∈ entries, ∀ other ∈ entries, own entry → own other → other = entry)
    (hlands : ∀ entry ∈ entries, own entry → ∀ s, Fresh config target s.events →
      wp script.handle (part entry).run
        (fun result t => Landed config target (result = .ok true) t.events) s)
    (hspares : ∀ other ∈ entries, ¬ own other → ∀ s,
      Untouched config target s (Prog.exec script.handle (part other).run s).2)
    (hfresh : Fresh config target s.events) :
    Landed config target
      (∃ run ∈ partRuns script.handle part entries s, own run.entry ∧ run.result = .ok true)
      (partsEnd script.handle part entries s).events := by
  have hruns : ∀ run ∈ partRuns script.handle part entries s, own run.entry →
      Landed config target (run.result = .ok true)
        (partsEnd script.handle part entries s).events := by
    intro run hrun hown
    have hmem := entry_of_mem_partRuns hrun
    have haround : Untouched config target s run.before ∧
        Untouched config target run.after (partsEnd script.handle part entries s) :=
      around_run Untouched.refl (fun _ _ _ => Untouched.trans) hnodup
        (fun other hother hne => hspares other hother fun h => hne (honly _ hmem _ hother hown h))
        hrun rfl
    have hlanded := hlands run.entry hmem hown run.before (hfresh.of_untouched haround.1)
    rw [wp, exec_of_mem_partRuns hrun] at hlanded
    exact hlanded.of_untouched haround.2
  by_cases hpart : ∃ entry ∈ entries, own entry
  · rcases hpart with ⟨entry, hentry, hown⟩
    rcases exists_mem_partRuns hentry s with ⟨run, hrun, rfl⟩
    have hlanded := hruns run hrun hown
    refine ⟨?_, hlanded.written, hlanded.apart⟩
    constructor
    · rintro ⟨run', hrun', hown', hok⟩
      exact (hruns run' hrun' hown').done_iff.mp hok
    · intro h
      exact ⟨run, hrun, hown, hlanded.done_iff.mpr h⟩
  · have hnone : ∀ other ∈ entries, ¬ own other := fun other hother h => hpart ⟨other, hother, h⟩
    have huntouched : Untouched config target s (partsEnd script.handle part entries s) :=
      partsEnd_keeps Untouched.refl (fun _ _ _ => Untouched.trans)
        (fun other hother => hspares other hother (hnone other hother)) s
    refine (hfresh.of_untouched huntouched).landed ?_
    rintro ⟨run, hrun, hown, -⟩
    exact hnone _ (entry_of_mem_partRuns hrun) hown

end

/-! ## A cycle -/

/-- The agents of a user, as targets. -/
def agentsOf (username : String) (agentId : Uuid) : SynthesisTarget :=
  .agent username agentId.hyphenated

theorem agentsOf_injective (username : String) : Function.Injective (agentsOf username) := by
  intro agentId agentId' h
  exact Uuid.hyphenated_inj.mp (SynthesisTarget.agent.inj h).2

theorem user_injective : Function.Injective SynthesisTarget.user := by
  intro username username' h
  exact SynthesisTarget.user.inj h

/-- The request of a user's or the global synthesis is fed by what was written in the tier below. -/
def FedByChange (events : List CycleEvent) :
    SynthesisTarget → List SourceDoc → Disk → Prop
  | .agent _ _, _, _ => True
  | .user username, sources, d => FedBy (agentsOf username) events sources d
  | .global, sources, d => FedBy SynthesisTarget.user events sources d

/-- What was written in the tier below a user or the whole store has landed whole. -/
def BelowLandsWhole (config : MemoryConfig) (events : List CycleEvent) :
    SynthesisTarget → Disk → Prop
  | .agent _ _, _ => True
  | .user username, d => LandWhole config (agentsOf username) events d
  | .global, d => LandWhole config SynthesisTarget.user events d

/-- A request is fed by change exactly if what was written below has landed whole. -/
def FedIfWhole (config : MemoryConfig) (events : List CycleEvent) (asked : SynthesisTarget)
    (sources : List SourceDoc) (d : Disk) : Prop :=
  FedByChange events asked sources d ↔ BelowLandsWhole config events asked d

section

variable {config : MemoryConfig} {script : CycleScript} {s t : CycleState}
  {κ : Type} {below : κ → SynthesisTarget} {keys : Finset κ}

theorem Counted.of_untouched (h : Counted config below keys s.events)
    (huntouched : ∀ key, IsTarget (below key) → Untouched config (below key) s t) :
    Counted config below keys t.events :=
  ⟨h.targets, fun key htarget => (h.landed key htarget).of_untouched (huntouched key htarget)⟩

/-- Reading the summaries of the targets that are done, and then looking in another folder. -/
theorem readCounted_wp [LinearOrder κ] (hinj : Function.Injective below)
    (hcounted : Counted config below keys s.events) {target : SynthesisTarget}
    (htarget : IsTarget target) (hother : ∀ key, below key ≠ target) :
    wp script.handle (readSummaries (keys.sort.map below) []).run (fun result t =>
      Looked config (InFolders (keys.sort.map below)) s t ∧
        ∀ sources, result = .ok sources → sources ≠ [] →
          ∀ u, Looked config (InFolder target) t u →
            (FedBy below u.events sources t.disk ↔ LandWhole config below u.events t.disk)) s := by
  have htargets : ∀ asked ∈ keys.sort.map below, IsTarget asked := by
    intro asked hasked
    rcases List.mem_map.mp hasked with ⟨key, hkey, rfl⟩
    exact hcounted.targets key ((Finset.mem_sort _).mp hkey)
  have hnodup : (keys.sort.map below).Nodup := (Finset.sort_nodup _ _).map hinj
  apply wp_mono (readSummaries_wp config htargets hnodup [] s)
  rintro result t ⟨ht, hfound⟩
  refine ⟨ht, ?_⟩
  intro sources hok hne u hu
  rcases hfound sources hok with ⟨docs, rfl, hdocs⟩
  have hkept : ∀ asked ∈ keys.sort.map below,
      lastFound asked u.events = lastFound asked t.events := by
    intro asked hasked
    refine hu.found asked fun path hpath hin => ?_
    rcases List.mem_map.mp hasked with ⟨key, -, rfl⟩
    exact hother key (inFolder_unique (htargets _ hasked) htarget hpath hin)
  refine fedBy_iff hinj (hcounted.of_untouched fun key _ => ?_) hne ?_
  · exact (ht.untouched _).trans (hu.untouched _)
  · rw [List.filter_congr fun asked hasked => by rw [hkept asked hasked], ht.disk]
    have hmem := (List.forall₂_and_left _ _).mpr ⟨fun asked hasked => hasked, hdocs⟩
    refine hmem.imp ?_
    rintro asked source ⟨hasked, hname, hcontent⟩
    exact ⟨(hkept asked (List.mem_filter.mp hasked).1).trans hname, hcontent⟩

theorem synthesizeUser_atRequests {username : String} {agentIds : Finset Uuid}
    (huser : IsTarget (.user username)) (h : AtRequests (FedIfWhole config) s.events)
    (hcounted : Counted config (agentsOf username) agentIds s.events) :
    wp script.handle (synthesizeUser config username agentIds).run
      (fun _ t => AtRequests (FedIfWhole config) t.events) s := by
  apply wp_run_bind
  apply wp_mono (readCounted_wp (agentsOf_injective username) hcounted huser (by simp [agentsOf]))
  rintro result t ⟨ht, hfed⟩
  refine ⟨fun sources hok => ?_, fun _ _ => ht.requests _ h⟩
  split
  · exact ht.requests _ h
  · rename_i hne
    rw [List.isEmpty_iff] at hne
    apply wp_run_bind
    apply wp_mono (foldSources_atRequests (ht.requests _ h) (hfed sources hok hne))
    exact fun _ _ hu => ⟨fun _ _ => hu, fun _ _ => hu⟩

theorem synthesizeGlobal_atRequests {users : Finset String}
    (h : AtRequests (FedIfWhole config) s.events)
    (hcounted : Counted config SynthesisTarget.user users s.events) :
    wp script.handle (synthesizeGlobal config users).run
      (fun _ t => AtRequests (FedIfWhole config) t.events) s := by
  have hglobal : IsTarget .global := trivial
  apply wp_run_bind
  apply wp_mono (readCounted_wp user_injective hcounted hglobal (by simp))
  rintro result t ⟨ht, hfed⟩
  refine ⟨fun sources hok => ?_, fun _ _ => ht.requests _ h⟩
  split
  · exact ht.requests _ h
  · rename_i hne
    rw [List.isEmpty_iff] at hne
    exact foldSources_atRequests (ht.requests _ h) (hfed sources hok hne)

variable {orders : CycleOrders} {changedFiles : List FileChanged}

/-- After pass 1, the agents that a user's part is given are those whose parts are done. -/
theorem agents_counted (hchanged : ∀ file ∈ changedFiles, IsNotified file) (d : Disk)
    (username : String) :
    Counted config (agentsOf username)
      ((afterAgents script.handle config orders changedFiles ⟨d, []⟩).1.members username)
      (afterAgents script.handle config orders changedFiles ⟨d, []⟩).2.events := by
  have hvalid : ∀ entry ∈ agentEntries orders changedFiles,
      IsTarget (.agent entry.1.1 entry.1.2.hyphenated) :=
    fun entry hentry => ⟨(isNotified_of_agentEntries hchanged hentry).1, _, rfl⟩
  constructor
  · intro agentId hagent
    rcases mem_afterAgents.mp hagent with ⟨run, hrun, hkey, -⟩
    have htarget := hvalid _ (entry_of_mem_partRuns hrun)
    rw [hkey] at htarget
    exact htarget
  · intro agentId htarget
    rw [mem_afterAgents, afterAgents_end]
    refine pass_lands (fun entry => entry.1 = (username, agentId)) (nodup_agentEntries _ _) ?_ ?_ ?_
      (fresh_start d)
    · intro entry hentry other hother hown hown'
      exact entry_eq_of_key hother hentry (hown'.trans hown.symm)
    · intro entry hentry hown s hfresh
      rcases entry with ⟨key, files⟩
      cases hown
      exact agentPart_lands hfresh
    · intro other hother hne s
      refine part_untouched (hvalid other hother) htarget ?_
        (agentPart_for other (fun _ _ => trivial) fun _ _ => trivial) s
      intro heq
      rcases SynthesisTarget.agent.inj heq with ⟨hname, hid⟩
      exact hne (Prod.ext hname (Uuid.hyphenated_inj.mp hid))

/-- Pass 1 touches no user. -/
theorem afterAgents_untouched (hchanged : ∀ file ∈ changedFiles, IsNotified file)
    {username : String} (huser : IsTarget (.user username)) (s : CycleState) :
    Untouched config (.user username) s
      (afterAgents script.handle config orders changedFiles s).2 := by
  rw [afterAgents_end]
  apply partsEnd_keeps Untouched.refl fun _ _ _ => Untouched.trans
  intro entry hentry s
  have htarget : IsTarget (.agent entry.1.1 entry.1.2.hyphenated) :=
    ⟨(isNotified_of_agentEntries hchanged hentry).1, _, rfl⟩
  exact part_untouched htarget huser (by simp)
    (agentPart_for entry (fun _ _ => trivial) fun _ _ => trivial) s

/-- After pass 2, the users that the global part is given are those whose parts are done. -/
theorem users_counted (hchanged : ∀ file ∈ changedFiles, IsNotified file) (d : Disk) :
    Counted config SynthesisTarget.user
      (afterUsers script.handle config orders changedFiles ⟨d, []⟩).1
      (afterUsers script.handle config orders changedFiles ⟨d, []⟩).2.events := by
  have hvalid : ∀ entry ∈ userEntries script.handle config orders changedFiles ⟨d, []⟩,
      IsTarget (.user entry.1) :=
    fun entry hentry => validUsername_of_userEntries hchanged hentry
  constructor
  · intro username huser
    rcases mem_afterUsers.mp huser with ⟨run, hrun, hkey, -⟩
    have htarget := hvalid _ (entry_of_mem_partRuns hrun)
    rw [hkey] at htarget
    exact htarget
  · intro username htarget
    rw [mem_afterUsers, afterUsers_end]
    refine pass_lands (fun entry => entry.1 = username) nodup_userEntries ?_ ?_ ?_
      ((fresh_start d).of_untouched (afterAgents_untouched hchanged htarget _))
    · rintro ⟨user, agentIds⟩ hentry ⟨user', agentIds'⟩ hother hown hown'
      cases hown
      cases hown'
      rw [← (mem_userEntries.mp hentry).1, ← (mem_userEntries.mp hother).1]
    · intro entry hentry hown s hfresh
      rcases entry with ⟨key, agentIds⟩
      cases hown
      exact userPart_lands hfresh
    · intro other hother hne s
      refine part_untouched (hvalid other hother) htarget ?_
        (userPart_for other fun _ _ => trivial) s
      intro heq
      exact hne (SynthesisTarget.user.inj heq)

/-- Pass 1 only requests the syntheses of agents. -/
theorem afterAgents_atRequests (d : Disk) :
    AtRequests (FedIfWhole config)
      (afterAgents script.handle config orders changedFiles ⟨d, []⟩).2.events := by
  rw [afterAgents_end]
  have hstart : AtRequests (FedIfWhole config) (⟨d, []⟩ : CycleState).events := by
    intro pre e post asked prior sources hsplit
    simp at hsplit
  refine partsEnd_invariant (I := fun s : CycleState => AtRequests (FedIfWhole config) s.events)
    (fun entry _ s h => ?_) hstart
  refine (Meets.exec_keeps (I := fun s : CycleState => AtRequests (FedIfWhole config) s.events)
    (agentPart_for entry (fun _ _ => trivial) fun _ _ => trivial) ?_ h).2
  intro c t hc ht
  refine ⟨trivial, handle_atRequests ht ?_⟩
  rintro asked prior sources rfl
  cases hc
  exact Iff.rfl

/-- Pass 2 requests the syntheses of users, each with the summaries of the agents it is given. -/
theorem afterUsers_atRequests (hchanged : ∀ file ∈ changedFiles, IsNotified file) (d : Disk) :
    AtRequests (FedIfWhole config)
      (afterUsers script.handle config orders changedFiles ⟨d, []⟩).2.events := by
  rw [afterUsers_end]
  -- The parts of other users leave what has happened to a user's agents as it was after pass 1.
  have hkept : AtRequests (FedIfWhole config) (partsEnd script.handle (userPart config)
        (userEntries script.handle config orders changedFiles ⟨d, []⟩)
        (afterAgents script.handle config orders changedFiles ⟨d, []⟩).2).events ∧
      ∀ username agentId, IsTarget (agentsOf username agentId) →
        Untouched config (agentsOf username agentId)
          (afterAgents script.handle config orders changedFiles ⟨d, []⟩).2
          (partsEnd script.handle (userPart config)
            (userEntries script.handle config orders changedFiles ⟨d, []⟩)
            (afterAgents script.handle config orders changedFiles ⟨d, []⟩).2) := by
    refine partsEnd_invariant (I := fun s : CycleState => AtRequests (FedIfWhole config) s.events ∧
      ∀ username agentId, IsTarget (agentsOf username agentId) →
        Untouched config (agentsOf username agentId)
          (afterAgents script.handle config orders changedFiles ⟨d, []⟩).2 s) ?_
      ⟨afterAgents_atRequests d, fun _ _ _ => Untouched.refl _⟩
    rintro ⟨username, agentIds⟩ hentry s ⟨hrequests, huntouched⟩
    constructor
    · have hcounted : Counted config (agentsOf username)
          ((afterAgents script.handle config orders changedFiles ⟨d, []⟩).1.members username)
          (afterAgents script.handle config orders changedFiles ⟨d, []⟩).2.events :=
        agents_counted hchanged d username
      rw [(mem_userEntries.mp hentry).1] at hcounted
      exact synthesizeUser_atRequests (validUsername_of_userEntries hchanged hentry) hrequests
        (hcounted.of_untouched fun agentId htarget => huntouched username agentId htarget)
    · intro user agentId htarget
      have huser : IsTarget (.user username) := validUsername_of_userEntries hchanged hentry
      exact (huntouched user agentId htarget).trans
        (part_untouched huser htarget (by simp [agentsOf])
          (userPart_for ⟨username, agentIds⟩ fun _ _ => trivial) s)
  exact hkept.1

/-- A request is fed by exactly what was written below, as long as that has landed whole, and only
then; in every cycle, whatever its script answers. -/
theorem cycle_atRequests (hchanged : ∀ file ∈ changedFiles, IsNotified file) (d : Disk) :
    AtRequests (FedIfWhole config)
      (script.exec (process config orders changedFiles) ⟨d, []⟩).2.events := by
  by_cases hne : changedFiles = []
  · rw [hne]
    intro pre e post asked prior sources hsplit
    exact absurd hsplit (by simp [CycleScript.exec, process])
  · unfold CycleScript.exec
    rw [process_exec _ _ _ _ _ hne]
    split
    · exact afterUsers_atRequests hchanged d
    · exact synthesizeGlobal_atRequests (afterUsers_atRequests hchanged d)
        (users_counted hchanged d)

/-- In a cycle, the syntheses of users and of the whole store are requested only for summaries
written in that cycle, and with exactly these as sources, if and only if, at each of these
requests, what was written in the tier below has landed whole. -/
theorem requests_on_change_iff (config : MemoryConfig) (script : CycleScript) (orders : CycleOrders)
    (hchanged : ∀ file ∈ changedFiles, IsNotified file) (d : Disk) :
    AtRequests FedByChange (script.exec (process config orders changedFiles) ⟨d, []⟩).2.events ↔
      AtRequests (fun events asked _ d => BelowLandsWhole config events asked d)
        (script.exec (process config orders changedFiles) ⟨d, []⟩).2.events := by
  have hevery : AtRequests (FedIfWhole config)
      (script.exec (process config orders changedFiles) ⟨d, []⟩).2.events :=
    cycle_atRequests hchanged d
  constructor
  · intro h pre e post asked prior sources hsplit hcall
    exact (hevery pre e post asked prior sources hsplit hcall).mp
      (h pre e post asked prior sources hsplit hcall)
  · intro h pre e post asked prior sources hsplit hcall
    exact (hevery pre e post asked prior sources hsplit hcall).mpr
      (h pre e post asked prior sources hsplit hcall)

end

/-! ## A blank answer -/

/-- The event is a request of a user's synthesis. -/
def CycleEvent.asksForUser (e : CycleEvent) : Bool :=
  match e.call with
  | .synthesize (.user _) _ _ => true
  | _ => false

/-- The first request of a user's synthesis comes before anything has been stored, so it is not
fed by change. -/
theorem not_fedByChange_of_unwritten {events : List CycleEvent}
    (hquiet : (events.takeWhile fun e => !e.asksForUser).all (fun e => !e.stored) = true)
    (hasked : (events.dropWhile fun e => !e.asksForUser).isEmpty = false) :
    ¬ AtRequests FedByChange events := by
  intro h
  cases hdrop : events.dropWhile fun e => !e.asksForUser with
  | nil => exact absurd hasked (by simp [hdrop])
  | cons e post =>
      have hsplit : events = (events.takeWhile fun e => !e.asksForUser) ++ e :: post := by
        rw [← hdrop, List.takeWhile_append_dropWhile]
      have hrequest : e.asksForUser = true := by
        have hhead := List.head_dropWhile_not (l := events)
          (fun e : CycleEvent => !e.asksForUser) (by simp [hdrop])
        simpa [hdrop] using hhead
      rcases e with ⟨call, response, d, stored⟩
      unfold CycleEvent.asksForUser at hrequest
      split at hrequest
      · rename_i username prior sources hcall
        rcases h _ _ _ _ _ _ hsplit hcall with ⟨keys, ⟨key, hkey⟩, hwritten, -⟩
        rcases ((hwritten key).mp hkey).2 with ⟨e, he, hwrites⟩
        have hnot := List.all_eq_true.mp hquiet e he
        rw [CycleEvent.stored_of_writes hwrites] at hnot
        exact absurd hnot (by decide)
      · exact absurd hrequest (by simp)

/-- A note of alice, and a summary her agent has from before. -/
def beforeBlank : Disk :=
  ((∅ : Disk).insert (noteOf "alice").path "x").insert
    (summaryPath (.agent "alice" Uuid.nil.hyphenated) "2026-05-18-01.md") "old"

/-- The language model answers with nothing for agents. -/
def blankForAgents : CycleScript :=
  .quiet may19 fun target =>
    match target with
    | .agent _ _ => ""
    | _ => "Summary."

theorem blank_not_fedByChange : ¬ AtRequests FedByChange
    (blankForAgents.exec (process .withDefaults .stored [noteOf "alice"])
      ⟨beforeBlank, []⟩).2.events :=
  not_fedByChange_of_unwritten (by decide +kernel) (by decide +kernel)

theorem isNotified_noteOf_alice : ∀ file ∈ [noteOf "alice"], IsNotified file := by
  intro file hfile
  rw [List.mem_singleton.mp hfile]
  exact ⟨by decide +kernel, none, "a.md", by decide +kernel⟩

/-- The request is not fed by change, as what was answered below has not landed: the agent's
answer was blank, and its folder has a summary. -/
theorem blank_not_landed : ¬ AtRequests
    (fun events asked _ d => BelowLandsWhole .withDefaults events asked d)
    (blankForAgents.exec (process .withDefaults .stored [noteOf "alice"])
      ⟨beforeBlank, []⟩).2.events :=
  fun h => blank_not_fedByChange ((requests_on_change_iff .withDefaults blankForAgents .stored
    isNotified_noteOf_alice beforeBlank).mpr h)

/-- A user's synthesis is requested although no summary of its agents has been written: a blank
answer counts as a change, and an agent's summary from before is passed on as new. -/
theorem blank_answer_passed_on :
    ¬ ∀ (config : MemoryConfig) (script : CycleScript) (orders : CycleOrders)
      (changedFiles : List FileChanged) (d : Disk), (∀ file ∈ changedFiles, IsNotified file) →
        AtRequests FedByChange
          (script.exec (process config orders changedFiles) ⟨d, []⟩).2.events :=
  fun h => blank_not_fedByChange (h _ _ _ _ _ isNotified_noteOf_alice)

end Memory
end MemoryHub
