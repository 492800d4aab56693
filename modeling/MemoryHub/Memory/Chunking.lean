import MemoryHub.Lib.RustStr
import MemoryHub.Lib.Windows
import Mathlib.Order.Interval.Finset.Nat

/-!
# Chunking

Splits content into overlapping line-based chunks, each with its first and last line
in the original, counted from 1.

Main results:

- Theorem `exists_covers_of_chunkLines`: the loop cuts one chunk for each of the windows
  that cover the lines.
- Theorem `chunkText_rebuilds`: the chunks of a long text give its lines back.
- Theorem `chunkText_eq_nil_iff`: only blank content has no chunks.
- Theorem `keepsText_iff`: the sizes for which every line is in a chunk.
-/

namespace MemoryHub
namespace Memory

/-- A raw text chunk before embedding. -/
structure TextChunk where
  text : String
  startLine : UInt32
  endLine : UInt32
deriving DecidableEq, Repr

/-- The loop of `chunk_text`: one chunk from `start`, then on by `step`. -/
def chunkLines (lines : List String) (chunkSize step : Nat) (hstep : 0 < step) (start : Nat) :
    List TextChunk :=
  if _h : start < lines.length then
    -- Both are below the number of lines here, so a `usize` has room for the sum.
    let stop := min (start + chunkSize) lines.length
    let chunk : TextChunk :=
      ⟨String.intercalate "\n" ((lines.drop start).take (stop - start)),
        UInt32.ofNat (start + 1), UInt32.ofNat stop⟩
    if stop = lines.length then [chunk]
    else chunk :: chunkLines lines chunkSize step hstep (start + step)
  else []
termination_by lines.length - start

/-- How far the next chunk starts after the current one. -/
def chunkStep (chunkSize chunkOverlap : Nat) : Nat :=
  if chunkOverlap < chunkSize then chunkSize - chunkOverlap else 1

theorem chunkStep_pos (chunkSize chunkOverlap : Nat) : 0 < chunkStep chunkSize chunkOverlap := by
  unfold chunkStep
  split <;> omega

/-- Split content into overlapping chunks; blank content has none. -/
def chunkText (content : String) (chunkSize chunkOverlap : Nat) : List TextChunk :=
  let lines := RustStr.lines content
  if lines.isEmpty || lines.all fun l => RustStr.trim l = "" then []
  else if lines.length ≤ chunkSize then [⟨content, 1, UInt32.ofNat lines.length⟩]
  else
    chunkLines lines chunkSize (chunkStep chunkSize chunkOverlap)
      (chunkStep_pos chunkSize chunkOverlap) 0

/-- Only blank content has no chunks. -/
theorem chunkText_eq_nil_iff {content : String} (chunkSize chunkOverlap : Nat) :
    chunkText content chunkSize chunkOverlap = [] ↔ RustStr.trim content = "" := by
  rw [← RustStr.trim_lines_eq_empty_iff]
  have hblank : ((RustStr.lines content).isEmpty ||
      (RustStr.lines content).all fun l => RustStr.trim l = "") = true ↔
        ∀ line ∈ RustStr.lines content, RustStr.trim line = "" := by
    cases RustStr.lines content <;> simp
  rw [← hblank]
  unfold chunkText
  simp only
  split <;> rename_i h
  · exact iff_of_true rfl h
  · refine iff_of_false ?_ h
    split
    · exact List.cons_ne_nil _ _
    · have hpos : 0 < (RustStr.lines content).length := by
        omega
      rw [chunkLines, dif_pos hpos]
      simp only
      split
      · exact List.cons_ne_nil _ _
      · exact List.cons_ne_nil _ _

/-! ## The loop -/

open Windows

/-- The chunk of the lines in a window. -/
def TextChunk.ofWindow (lines : List String) (w : Nat × Nat) : TextChunk :=
  ⟨String.intercalate "\n" (slice lines w), UInt32.ofNat (w.1 + 1), UInt32.ofNat w.2⟩

/-- The loop cuts the chunks of windows that cover the lines from `start` on. -/
theorem exists_covers_of_chunkLines {lines : List String} {chunkSize step start : Nat}
    (hstep : 0 < step) (hle : step ≤ chunkSize) (hstart : start < lines.length) :
    ∃ ws, Covers lines.length chunkSize step start ws ∧
      chunkLines lines chunkSize step hstep start = ws.map (TextChunk.ofWindow lines) := by
  induction start using chunkLines.induct lines chunkSize step hstep with
  | case1 start _ stop hstop =>
      -- The window reaches the last line, and the loop breaks.
      have hfit : lines.length ≤ start + chunkSize := min_eq_right_iff.mp hstop
      refine ⟨[(start, lines.length)], .last hstart hfit, ?_⟩
      rw [chunkLines, dif_pos hstart]
      simp only [min_eq_right hfit, if_pos, List.map_singleton]
      rfl
  | case2 start _ stop hstop ih =>
      have hmore : start + chunkSize < lines.length := by
        by_contra hnot
        exact hstop (min_eq_right (Nat.le_of_not_lt hnot))
      rcases ih (by omega) with ⟨ws, hcovers, hws⟩
      refine ⟨(start, start + chunkSize) :: ws, .cons hmore hcovers, ?_⟩
      rw [chunkLines, dif_pos hstart]
      simp only [min_eq_left hmore.le, if_neg hmore.ne, hws, List.map_cons]
      rfl
  | case3 start hnot => exact absurd hstart hnot

/-! ## Rebuilding the text -/

/-- The numbers of the lines a chunk says it holds. -/
def TextChunk.span (c : TextChunk) : Finset Nat :=
  Finset.Icc c.startLine.toNat c.endLine.toNat

/-- The source lines from a chunk's first to its last. -/
def TextChunk.sourceLines (lines : List String) (c : TextChunk) : List String :=
  (lines.drop (c.startLine.toNat - 1)).take (c.endLine.toNat + 1 - c.startLine.toNat)

/-- The chunks hold the lines in order: full windows `chunkOverlap` lines into each other,
from the first line to the last. -/
structure Rebuilds (lines : List String) (chunkSize chunkOverlap : Nat)
    (chunks : List TextChunk) : Prop where
  ranges : ∀ c ∈ chunks, 1 ≤ c.startLine.toNat ∧ c.startLine ≤ c.endLine ∧
    c.endLine.toNat ≤ lines.length
  text : ∀ c ∈ chunks, c.text = String.intercalate "\n" (c.sourceLines lines)
  full : ∀ c ∈ chunks.dropLast, c.span.card = chunkSize
  next : chunks.IsChain fun c d =>
    d.startLine.toNat = c.startLine.toNat + (chunkSize - chunkOverlap) ∧
      (c.span ∩ d.span).card = chunkOverlap
  first : chunks.head?.map (·.startLine.toNat) = some 1
  last : chunks.getLast?.map (·.endLine.toNat) = some lines.length
  rebuild : ∀ c rest, chunks = c :: rest → RustStr.splitNewline c.text ++
    rest.flatMap (fun d => (RustStr.splitNewline d.text).drop chunkOverlap) = lines

section Window

variable {lines : List String} {w : Nat × Nat}

/-- Below `2^32` lines the line numbers of a chunk are those of its window. -/
theorem TextChunk.toNat_startLine_ofWindow (hlt : w.1 < w.2) (hle : w.2 ≤ lines.length)
    (hlines : lines.length < 2 ^ 32) :
    (TextChunk.ofWindow lines w).startLine.toNat = w.1 + 1 :=
  UInt32.toNat_ofNat_of_lt' (by
    have hsize : UInt32.size = 2 ^ 32 := rfl
    omega)

theorem TextChunk.toNat_endLine_ofWindow (hle : w.2 ≤ lines.length)
    (hlines : lines.length < 2 ^ 32) : (TextChunk.ofWindow lines w).endLine.toNat = w.2 :=
  UInt32.toNat_ofNat_of_lt' (by
    have hsize : UInt32.size = 2 ^ 32 := rfl
    omega)

theorem TextChunk.sourceLines_ofWindow (hlt : w.1 < w.2) (hle : w.2 ≤ lines.length)
    (hlines : lines.length < 2 ^ 32) :
    (TextChunk.ofWindow lines w).sourceLines lines = slice lines w := by
  rw [sourceLines, toNat_startLine_ofWindow hlt hle hlines, toNat_endLine_ofWindow hle hlines,
    slice, Nat.add_sub_cancel, Nat.add_sub_add_right]

theorem TextChunk.span_ofWindow (hlt : w.1 < w.2) (hle : w.2 ≤ lines.length)
    (hlines : lines.length < 2 ^ 32) :
    (TextChunk.ofWindow lines w).span = Finset.Icc (w.1 + 1) w.2 := by
  rw [span, toNat_startLine_ofWindow hlt hle hlines, toNat_endLine_ofWindow hle hlines]

/-- The range of a chunk lies within the lines. -/
theorem TextChunk.ranges_ofWindow (hlt : w.1 < w.2) (hle : w.2 ≤ lines.length)
    (hlines : lines.length < 2 ^ 32) :
    1 ≤ (TextChunk.ofWindow lines w).startLine.toNat ∧
      (TextChunk.ofWindow lines w).startLine ≤ (TextChunk.ofWindow lines w).endLine ∧
      (TextChunk.ofWindow lines w).endLine.toNat ≤ lines.length := by
  rw [UInt32.le_iff_toNat_le, toNat_startLine_ofWindow hlt hle hlines,
    toNat_endLine_ofWindow hle hlines]
  omega

/-- The text of a chunk splits into the lines it was joined from. -/
theorem TextChunk.splitNewline_ofWindow (hlt : w.1 < w.2) (hle : w.2 ≤ lines.length)
    (hfree : ∀ line ∈ lines, '\n' ∉ line.toList) :
    RustStr.splitNewline (TextChunk.ofWindow lines w).text = slice lines w := by
  refine RustStr.splitNewline_intercalate ?_ ?_
  · rw [← List.length_pos_iff, length_slice hle]
    omega
  · intro line hline
    exact hfree line (List.mem_of_mem_drop (List.mem_of_mem_take hline))

end Window

/-- The chunks of windows that cover the lines hold the lines in order. -/
theorem rebuilds_of_covers {lines : List String} {chunkSize chunkOverlap : Nat}
    {ws : List (Nat × Nat)} (hsize : chunkOverlap < chunkSize) (hlines : lines.length < 2 ^ 32)
    (hfree : ∀ line ∈ lines, '\n' ∉ line.toList)
    (hcovers : Covers lines.length chunkSize (chunkSize - chunkOverlap) 0 ws) :
    Rebuilds lines chunkSize chunkOverlap (ws.map (TextChunk.ofWindow lines)) := by
  have hbounds : ∀ w ∈ ws, w.1 < w.2 ∧ w.2 ≤ lines.length :=
    fun w hw => (hcovers.bounds (by omega) w hw).2
  have hspan : ∀ w ∈ ws, (TextChunk.ofWindow lines w).span = Finset.Icc (w.1 + 1) w.2 :=
    fun w hw => TextChunk.span_ofWindow (hbounds w hw).1 (hbounds w hw).2 hlines
  refine ⟨?_, ?_, ?_, ?_, ?_, ?_, ?_⟩
  · intro c hc
    rcases List.mem_map.mp hc with ⟨w, hw, rfl⟩
    exact TextChunk.ranges_ofWindow (hbounds w hw).1 (hbounds w hw).2 hlines
  · intro c hc
    rcases List.mem_map.mp hc with ⟨w, hw, rfl⟩
    rcases hbounds w hw with ⟨hlt, hle⟩
    rw [TextChunk.sourceLines_ofWindow hlt hle hlines]
    rfl
  · intro c hc
    rw [← List.map_dropLast] at hc
    rcases List.mem_map.mp hc with ⟨w, hw, rfl⟩
    rw [hspan w (List.dropLast_subset ws hw), Nat.card_Icc, hcovers.full w hw]
    omega
  · rw [List.isChain_map]
    refine hcovers.isChain.imp_of_mem_imp ?_
    rintro v w hv hw ⟨hnext, hfull, hle⟩
    have hshared : Finset.Icc (v.1 + 1) v.2 ∩ Finset.Icc (w.1 + 1) w.2 =
        Finset.Icc (w.1 + 1) v.2 := by
      ext line
      rw [Finset.mem_inter, Finset.mem_Icc, Finset.mem_Icc, Finset.mem_Icc]
      omega
    rw [TextChunk.toNat_startLine_ofWindow (hbounds v hv).1 (hbounds v hv).2 hlines,
      TextChunk.toNat_startLine_ofWindow (hbounds w hw).1 (hbounds w hw).2 hlines,
      hspan v hv, hspan w hw, hshared, Nat.card_Icc]
    omega
  · rcases hcovers.exists_head with ⟨rest, hws⟩
    have hhead : (0, min (0 + chunkSize) lines.length) ∈ ws := hws ▸ List.mem_cons_self
    have hstart := TextChunk.toNat_startLine_ofWindow (hbounds _ hhead).1 (hbounds _ hhead).2 hlines
    rw [hws, List.map_cons, List.head?_cons, Option.map_some, hstart]
  · have hlast := hcovers.getLast?_eq
    cases hw : ws.getLast? with
    | none => simp [hw] at hlast
    | some w =>
        rw [hw, Option.map_some, Option.some_inj] at hlast
        rw [List.getLast?_map, hw, Option.map_some, Option.map_some,
          TextChunk.toNat_endLine_ofWindow hlast.le hlines, hlast]
  · intro c rest hchunks
    rcases List.map_eq_cons_iff.mp hchunks with ⟨w, later, rfl, rfl, rfl⟩
    have hsplit : ∀ v ∈ w :: later,
        RustStr.splitNewline (TextChunk.ofWindow lines v).text = slice lines v :=
      fun v hv => TextChunk.splitNewline_ofWindow (hbounds v hv).1 (hbounds v hv).2 hfree
    have hrest : (later.map (TextChunk.ofWindow lines)).flatMap
        (fun d => (RustStr.splitNewline d.text).drop chunkOverlap) =
        later.flatMap (fun v => (slice lines v).drop chunkOverlap) := by
      rw [List.flatMap_map]
      refine List.flatMap_congr ?_
      intro v hv
      rw [hsplit v (List.mem_cons_of_mem _ hv)]
    have hrebuild := hcovers.rebuild (Nat.sub_le _ _) w later rfl
    have hoverlap : chunkSize - (chunkSize - chunkOverlap) = chunkOverlap := by omega
    rw [hoverlap, List.drop_zero] at hrebuild
    rw [hsplit w List.mem_cons_self, hrest, hrebuild]

/-- Cut into several chunks, a text gives all its lines back. -/
theorem chunkText_rebuilds {content : String} {chunkSize chunkOverlap : Nat}
    (hsize : chunkOverlap < chunkSize)
    (hmany : 1 < (chunkText content chunkSize chunkOverlap).length)
    (hlines : (RustStr.lines content).length < 2 ^ 32) :
    Rebuilds (RustStr.lines content) chunkSize chunkOverlap
      (chunkText content chunkSize chunkOverlap) := by
  rw [chunkText] at hmany ⊢
  split at hmany
  · simp at hmany
  · rename_i hblank
    split at hmany
    · simp at hmany
    · rename_i hlong
      rw [if_neg hblank, if_neg hlong]
      have hstep : chunkStep chunkSize chunkOverlap = chunkSize - chunkOverlap := if_pos hsize
      have hle : chunkStep chunkSize chunkOverlap ≤ chunkSize := by omega
      have hpos : 0 < (RustStr.lines content).length := by omega
      rcases exists_covers_of_chunkLines (chunkStep_pos chunkSize chunkOverlap) hle hpos with
        ⟨ws, hcovers, hws⟩
      rw [hstep] at hcovers
      rw [hws]
      exact rebuilds_of_covers hsize hlines (fun _ => RustStr.newline_notMem_of_mem_lines) hcovers

/-- Five lines in chunks of three that share one. -/
theorem chunkText_rebuilds_five :
    Rebuilds (RustStr.lines "a\nb\nc\nd\ne\n") 3 1 (chunkText "a\nb\nc\nd\ne\n" 3 1) :=
  chunkText_rebuilds (by decide) (by decide +kernel) (by decide +kernel)

/-! ## Any configuration -/

/-- The chunks have the ranges of lines they should, and every line is in one of them. -/
structure KeepsText (lines : List String) (chunks : List TextChunk) : Prop where
  ranges : ∀ c ∈ chunks, 1 ≤ c.startLine.toNat ∧ c.startLine ≤ c.endLine ∧
    c.endLine.toNat ≤ lines.length
  covered : ∀ k, 1 ≤ k → k ≤ lines.length → ∃ c ∈ chunks, k ∈ c.span

theorem chunkStep_le {chunkSize : Nat} (hsize : 0 < chunkSize) (chunkOverlap : Nat) :
    chunkStep chunkSize chunkOverlap ≤ chunkSize := by
  unfold chunkStep
  split <;> omega

/-- The chunks of windows that cover the lines keep the text. -/
theorem keepsText_of_covers {lines : List String} {chunkSize step : Nat} {ws : List (Nat × Nat)}
    (hsize : 0 < chunkSize) (hstep : step ≤ chunkSize) (hlines : lines.length < 2 ^ 32)
    (hcovers : Covers lines.length chunkSize step 0 ws) :
    KeepsText lines (ws.map (TextChunk.ofWindow lines)) := by
  have hbounds : ∀ w ∈ ws, w.1 < w.2 ∧ w.2 ≤ lines.length :=
    fun w hw => (hcovers.bounds hsize w hw).2
  constructor
  · intro c hc
    rcases List.mem_map.mp hc with ⟨w, hw, rfl⟩
    exact TextChunk.ranges_ofWindow (hbounds w hw).1 (hbounds w hw).2 hlines
  · intro k hpos hk
    rcases hcovers.exists_window hstep (Nat.zero_le (k - 1)) (by omega) with ⟨w, hw, hfrom, hto⟩
    refine ⟨_, List.mem_map_of_mem hw, ?_⟩
    rw [TextChunk.span_ofWindow (hbounds w hw).1 (hbounds w hw).2 hlines, Finset.mem_Icc]
    omega

/-- A window of no lines cuts an empty chunk before the first line. -/
theorem empty_mem_chunkLines {lines : List String} {step : Nat} (hstep : 0 < step)
    (hlines : lines ≠ []) : (⟨"", 1, 0⟩ : TextChunk) ∈ chunkLines lines 0 step hstep 0 := by
  have hpos : 0 < lines.length := List.length_pos_iff.mpr hlines
  rw [chunkLines, dif_pos hpos]
  simp only [Nat.add_zero, Nat.zero_min, if_neg hpos.ne]
  exact List.mem_cons_self

/-- A line with text is in a chunk, and so is every other line of its content, exactly if the
chunks have a size and their line numbers have room for the last line. -/
theorem keepsText_iff {content : String}
    (htext : ∃ line ∈ RustStr.lines content, RustStr.trim line ≠ "")
    (chunkSize chunkOverlap : Nat) :
    KeepsText (RustStr.lines content) (chunkText content chunkSize chunkOverlap) ↔
      0 < chunkSize ∧ (RustStr.lines content).length < 2 ^ 32 := by
  rcases htext with ⟨line, hline, hnonblank⟩
  have hne : RustStr.lines content ≠ [] := List.ne_nil_of_mem hline
  have hpos : 0 < (RustStr.lines content).length := List.length_pos_iff.mpr hne
  have hblank : ¬ ((RustStr.lines content).isEmpty ||
      (RustStr.lines content).all fun l => RustStr.trim l = "") = true := by
    simp only [Bool.or_eq_true, List.isEmpty_iff, List.all_eq_true, decide_eq_true_eq, not_or]
    exact ⟨hne, fun hall => hnonblank (hall line hline)⟩
  rw [chunkText, if_neg hblank]
  constructor
  · intro hkeeps
    constructor
    · -- Without a size the first chunk would end before it starts.
      by_contra hzero
      obtain rfl : chunkSize = 0 := Nat.eq_zero_of_not_pos hzero
      rw [if_neg (by omega)] at hkeeps
      have hrange := (hkeeps.ranges _ (empty_mem_chunkLines _ hne)).2.1
      exact absurd hrange (by decide)
    · -- Line `2 ^ 32` is beyond every `u32`.
      by_contra hmany
      rcases hkeeps.covered (2 ^ 32) (by decide) (Nat.le_of_not_lt hmany) with ⟨c, -, hc⟩
      have hend := (Finset.mem_Icc.mp hc).2
      exact absurd c.endLine.toNat_lt (Nat.not_lt_of_le hend)
  · rintro ⟨hsize, hlines⟩
    split
    · have hlast : (UInt32.ofNat (RustStr.lines content).length).toNat =
          (RustStr.lines content).length := UInt32.toNat_ofNat_of_lt' hlines
      have hfirst : (1 : UInt32).toNat = 1 := rfl
      constructor
      · intro c hc
        rw [List.mem_singleton.mp hc, UInt32.le_iff_toNat_le, hlast, hfirst]
        omega
      · intro k hk hkl
        refine ⟨_, List.mem_singleton.mpr rfl, ?_⟩
        rw [TextChunk.span, Finset.mem_Icc, hlast, hfirst]
        omega
    · have hstep := chunkStep_le hsize chunkOverlap
      rcases exists_covers_of_chunkLines (chunkStep_pos chunkSize chunkOverlap) hstep hpos with
        ⟨ws, hcovers, hws⟩
      rw [hws]
      exact keepsText_of_covers hsize hstep hlines hcovers

/-- Chunks of two lines that are to overlap in five still go on line by line. -/
theorem keepsText_iff_large_overlap :
    KeepsText (RustStr.lines "a\nb\nc\n") (chunkText "a\nb\nc\n" 2 5) :=
  (keepsText_iff ⟨"a", by decide +kernel, by decide +kernel⟩ 2 5).mpr
    ⟨by decide, by decide +kernel⟩

/-- With a chunk size of zero all chunks are empty. -/
theorem zero_size_loses_text :
    (∃ line ∈ RustStr.lines "a\nb", RustStr.trim line ≠ "") ∧
      ¬ KeepsText (RustStr.lines "a\nb") (chunkText "a\nb" 0 80) := by
  have htext : ∃ line ∈ RustStr.lines "a\nb", RustStr.trim line ≠ "" :=
    ⟨"a", by decide +kernel, by decide +kernel⟩
  have hchunks : chunkText "a\nb" 0 80 = [⟨"", 1, 0⟩, ⟨"", 2, 1⟩] := by decide +kernel
  refine ⟨htext, ?_⟩
  intro hkeeps
  rw [hchunks] at hkeeps
  have hrange := (hkeeps.ranges _ List.mem_cons_self).2.1
  exact absurd hrange (by decide)

end Memory
end MemoryHub
