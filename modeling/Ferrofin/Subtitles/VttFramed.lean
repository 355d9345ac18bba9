import Ferrofin.Subtitles.VttText

/-!
# The frame of WebVTT

Cues whose texts are solid, and have no `-->` that closes a tag, are the blocks of what is written
behind the header (`toText_framed`).
-/

namespace Ferrofin.Subtitles.Vtt

open Lib (blocks blocks_nil_cons blocks_append blocks_append_blanks fullLines solid solid_of_append
  splitOn_of_solid isInfix_of_mem_splitOn)
open Util (isWhitespace isWhitespace_of_isDigit mem_replaceFrom replace trimChars trimChars_append
  trimChars_ne_nil trimEnd trimEnd_append trimEnd_getLast? prefix_trimEnd)
open List (append_nil cons_append cons_ne_nil mem_append mem_cons)

variable {runtime : Runtime} {s : Text} {c : Char} {p : Paragraph} {paragraphs : List Paragraph}
  {header : Bool}

/-! ### Timing lines -/

theorem mem_dotnetInt {value : ℤ} {digits : ℕ} (h : c ∈ dotnetInt value digits) :
    c.isDigit = true ∨ c = '-' := by
  rw [dotnetInt] at h
  split at h
  · exact (mem_cons.mp h).symm.imp_left isDigit_of_mem_padded
  · exact .inl (isDigit_of_mem_padded h)

theorem newline_notMem_dotnetInt (value : ℤ) (digits : ℕ) : newline ∉ dotnetInt value digits :=
  fun h => by rcases mem_dotnetInt h with h | h <;> cases h

theorem dotnetInt_getLast? {value : ℤ} {digits : ℕ}
    (h : (dotnetInt value digits).getLast? = some c) : c.isDigit = true := by
  have hpadded : ∀ {n : ℕ}, (padded digits n).getLast? = some c → c.isDigit = true := fun h =>
    isDigit_of_mem_padded (List.mem_of_getLast? h)
  rw [dotnetInt] at h
  split at h
  · change (['-'] ++ padded digits _).getLast? = some c at h
    rw [List.getLast?_append_of_ne_nil _ (padded_ne_nil _ _)] at h
    exact hpadded h
  · exact hpadded h

theorem dotnetInt_ne_nil (value : ℤ) (digits : ℕ) : dotnetInt value digits ≠ [] := by
  rw [dotnetInt]
  split
  · exact cons_ne_nil _ _
  · exact padded_ne_nil _ _

theorem newline_notMem_formatTimecode (time : TimeCode) : newline ∉ formatTimecode time := by
  have hcolon : newline ∉ [':'] := by decide
  have hpoint : newline ∉ ['.'] := by decide
  simp only [formatTimecode, mem_append, newline_notMem_dotnetInt, hcolon, hpoint, or_self,
    not_false_eq_true]

theorem newline_notMem_positionInfo (p : Paragraph) : newline ∉ positionInfoFromAssTag p := by
  have hsettings : ∀ entry ∈ cueSettings, newline ∉ entry.2 := by decide
  intro h
  rcases mem_cons.mp ((prefix_trimEnd _).subset h) with heq | h
  · exact absurd heq (by decide)
  · rcases hfind : cueSettings.find? fun entry => entry.1.isPrefixOf p.text with _ | entry
    · rw [hfind] at h
      cases h
    · rw [hfind] at h
      exact hsettings entry (List.mem_of_find?_eq_some hfind) h

/-- Cue settings do not end with white space, and have no line break but those of a region. -/
theorem position_spec (header : Bool) (hregion : ∀ region ∈ p.region, newline ∉ region) :
    newline ∉ position header p ∧ ∃ s, position header p = trimEnd s := by
  rw [position]
  split
  · next region hsome =>
    split
    · refine ⟨fun h => ?_, _, rfl⟩
      have hnone : newline ∉ region := hregion region (Option.filter_eq_some_iff.mp hsome).1
      rcases mem_replaceFrom ((prefix_trimEnd _).subset h) with h | h
      · exact absurd h (by decide)
      · rcases mem_append.mp h with h | h
        · exact (mem_append.mp h).elim (by decide) hnone
        · rcases mem_cons.mp h with heq | h
          · exact absurd heq (by decide)
          · exact newline_notMem_positionInfo p h
    · exact ⟨newline_notMem_positionInfo p, _, rfl⟩
  · exact ⟨newline_notMem_positionInfo p, _, rfl⟩

theorem newline_notMem_timingLine (header : Bool)
    (hregion : ∀ region ∈ p.region, newline ∉ region) :
    newline ∉ timingLine header p := by
  have harrow : newline ∉ " --> ".toList := by decide
  simp only [timingLine, mem_append, newline_notMem_formatTimecode, harrow,
    (position_spec header hregion).1, or_self, not_false_eq_true]

theorem timingLine_ne_nil : timingLine header p ≠ [] := by simp [timingLine]

theorem timingLine_getLast? (hregion : ∀ region ∈ p.region, newline ∉ region)
    (h : (timingLine header p).getLast? = some c) : isWhitespace c = false := by
  obtain ⟨s, hs⟩ := (position_spec header hregion).2
  rw [timingLine] at h
  by_cases hnil : position header p = []
  · rw [hnil, append_nil, List.getLast?_append_of_ne_nil _ (by simp [formatTimecode]),
      formatTimecode, List.getLast?_append_of_ne_nil _ (dotnetInt_ne_nil _ _)] at h
    exact isWhitespace_of_isDigit (dotnetInt_getLast? h)
  · rw [List.getLast?_append_of_ne_nil _ hnil, hs] at h
    exact trimEnd_getLast? h

/-! ### Cues -/

/-- A cue that the writer frames: its text has no carriage return and, with the override blocks
removed, does not start with a line break, unless it is one; its region is in one line; and no `-->`
closes a tag. -/
structure Framable (runtime : Runtime) (p : Paragraph) : Prop where
  text : '\r' ∉ p.text
  start : (removeRecursiveLineBreaks (removeSsaTags p.text)).head? = some newline →
    removeRecursiveLineBreaks (removeSsaTags p.text) = [newline]
  region : ∀ region ∈ p.region, newline ∉ region
  arrow : arrowCloses runtime ⟨false, 0⟩ (unescapedText runtime p) = false

def Framed (header : Bool) (p : Paragraph) (block : List Text) : Prop :=
  ∃ text, block = timingLine header p :: text ∧
    ∀ line ∈ text, line ≠ [] ∧ ¬"-->".toList <:+: line

theorem Framable.solid (h : Framable runtime p) :
    formatText runtime p = [newline] ∨ solid newline false (formatText runtime p) = true := by
  rw [formatText, escapeEncodeText_eq, solid_escapeFrom, unescapedText, solid_colorHtmlToWebvtt]
  by_cases hstart : (removeRecursiveLineBreaks (removeSsaTags p.text)).head? = some newline
  · have hcolor : colorHtmlToWebvtt runtime [newline] = [newline] := by
      have hclosing : replace "</font>".toList "</c>".toList [newline] = [newline] := by decide
      have hpass : colorPass runtime [newline] = [newline] := colorPass_of_notMem (by decide)
      rw [colorHtmlToWebvtt, hclosing, hpass, hpass]
    rw [h.start hstart, hcolor]
    exact .inl (escapeFrom_eq_self false (List.forall_mem_singleton.mpr rfl))
  · refine .inr (solid_removeRecursiveLineBreaks (fun hcr => ?_) hstart)
    rcases mem_removeSsaTags hcr with heq | heq | hmem
    · exact absurd heq (by decide)
    · exact absurd heq (by decide)
    · exact h.text hmem

theorem Framable.splitOn (h : Framable runtime p) (hbegins : s <+: formatText runtime p) :
    ∃ k, s.splitOn newline = fullLines newline s ++ List.replicate k [] := by
  rcases h.solid with heq | hsolid
  · rw [heq] at hbegins
    rcases List.prefix_cons_iff.mp hbegins with rfl | ⟨rest, rfl, hrest⟩
    · exact ⟨1, rfl⟩
    · rw [List.prefix_nil.mp hrest]
      exact ⟨2, rfl⟩
  · obtain ⟨back, hback⟩ := hbegins
    rw [← hback] at hsolid
    exact splitOn_of_solid (solid_of_append hsolid)

theorem Framable.framed (h : Framable runtime p) (hbegins : s <+: formatText runtime p) :
    Framed header p (timingLine header p :: fullLines newline s) := by
  refine ⟨_, rfl, fun line hline => ?_⟩
  obtain ⟨hmem, hne⟩ := List.mem_filter.mp hline
  refine ⟨by simpa using hne, fun harrow => ?_⟩
  have hpart := (harrow.trans (isInfix_of_mem_splitOn hmem)).trans hbegins.isInfix
  rw [formatText, escapeEncodeText_eq] at hpart
  exact arrow_escapeFrom (keeps_zero false _) h.arrow hpart

theorem ne_nil_of_mem_fullLines {line : Text} (h : line ∈ fullLines newline s) : line ≠ [] := by
  simpa using (List.mem_filter.mp h).2

theorem ne_nil_of_mem_block : ∀ line ∈ timingLine header p :: fullLines newline s, line ≠ [] := by
  intro line hline
  rcases mem_cons.mp hline with rfl | hline
  · exact timingLine_ne_nil
  · exact ne_nil_of_mem_fullLines hline

theorem blocks_cueText (h : Framable runtime p) (s : Text) :
    blocks ((cueText runtime header p ++ s).splitOn newline) =
      (timingLine header p :: fullLines newline (formatText runtime p)) ::
        blocks (s.splitOn newline) := by
  obtain ⟨k, hk⟩ := h.splitOn List.prefix_rfl
  have htext : cueText runtime header p ++ s = timingLine header p ++ newline ::
      (formatText runtime p ++ newline :: ([] ++ newline :: s)) := by simp [cueText]
  rw [htext, List.splitOn_append_cons_self_of_not_mem (newline_notMem_timingLine header h.region),
    List.splitOn_append_cons_self, hk,
    List.splitOn_append_cons_self_of_not_mem List.not_mem_nil, ← cons_append,
    ← cons_append, blocks_append ne_nil_of_mem_block (cons_ne_nil _ _)]

theorem blocks_flatMap (h : ∀ p ∈ paragraphs, Framable runtime p) (s : Text) :
    blocks ((paragraphs.flatMap (cueText runtime header) ++ s).splitOn newline) =
      paragraphs.map (fun p => timingLine header p :: fullLines newline (formatText runtime p)) ++
        blocks (s.splitOn newline) := by
  induction paragraphs with
  | nil => rfl
  | cons p paragraphs ih =>
    rw [List.flatMap_cons, List.append_assoc, blocks_cueText (h p List.mem_cons_self),
      ih fun q hq => h q (List.mem_cons_of_mem p hq), List.map_cons, cons_append]

/-! ### The last cue -/

def lastText (runtime : Runtime) (header : Bool) (p : Paragraph) : Text :=
  timingLine header p ++
    if trimEnd (formatText runtime p) = [] then [] else newline :: trimEnd (formatText runtime p)

theorem lastText_append (runtime : Runtime) (header : Bool) (p : Paragraph) :
    ∃ blank, cueText runtime header p = lastText runtime header p ++ blank ∧
      blank.all isWhitespace = true := by
  obtain ⟨blank, heq, hblank⟩ := trimEnd_append (formatText runtime p)
  have hnewlines : [newline, newline].all isWhitespace = true := by decide
  by_cases hnil : trimEnd (formatText runtime p) = []
  · refine ⟨newline :: (blank ++ [newline, newline]), ?_, ?_⟩
    · rw [hnil, List.nil_append] at heq
      rw [lastText, if_pos hnil, cueText, heq, append_nil]
    · rw [List.all_cons, List.all_append, hblank, hnewlines]
      decide
  · refine ⟨blank ++ [newline, newline], ?_, by rw [List.all_append, hblank, hnewlines]; rfl⟩
    rw [lastText, if_neg hnil, cueText]
    conv_lhs => rw [heq]
    simp

theorem lastText_ne_nil : lastText runtime header p ≠ [] := by simp [lastText, timingLine]

theorem lastText_getLast? (hregion : ∀ region ∈ p.region, newline ∉ region)
    (h : (lastText runtime header p).getLast? = some c) : isWhitespace c = false := by
  rw [lastText] at h
  by_cases hnil : trimEnd (formatText runtime p) = []
  · rw [if_pos hnil, append_nil] at h
    exact timingLine_getLast? hregion h
  · rw [if_neg hnil, List.append_cons, List.getLast?_append_of_ne_nil _ hnil] at h
    exact trimEnd_getLast? h

theorem blocks_lastText (h : Framable runtime p) :
    blocks ((lastText runtime header p).splitOn newline) =
      [timingLine header p :: fullLines newline (trimEnd (formatText runtime p))] := by
  have hfree := newline_notMem_timingLine header h.region
  obtain ⟨k, hk⟩ := h.splitOn (prefix_trimEnd (formatText runtime p))
  rw [lastText]
  split
  · next hnil =>
    rw [append_nil, List.splitOn_eq_singleton hfree, hnil]
    have hone : blocks ([timingLine header p] ++ List.replicate 0 []) = [[timingLine header p]] :=
      blocks_append_blanks (by simpa using timingLine_ne_nil) (cons_ne_nil _ _) 0
    exact hone
  · rw [List.splitOn_append_cons_self_of_not_mem hfree]
    change blocks (timingLine header p :: (trimEnd (formatText runtime p)).splitOn newline) = _
    rw [hk, ← cons_append,
      blocks_append_blanks ne_nil_of_mem_block (cons_ne_nil _ _)]

/-! ### The whole text -/

theorem headerText_spec (subtitle : Subtitle) : headerText subtitle ≠ [] ∧
    (∀ c, (headerText subtitle).head? = some c → isWhitespace c = false) ∧
    ∀ c, (headerText subtitle).getLast? = some c → isWhitespace c = false := by
  rw [headerText]
  split
  · next hheader =>
    obtain ⟨rest, hrest⟩ := List.isPrefixOf_iff_prefix.mp hheader
    refine ⟨trimChars_ne_nil (c := 'W') ?_ (by decide), fun _ => Util.trimChars_head?,
      fun _ => Util.trimChars_getLast?⟩
    rw [← hrest]
    exact List.mem_append_left _ (by decide)
  · refine ⟨by decide, fun c hc => ?_, fun c hc => ?_⟩
    · cases hc
      rfl
    · cases hc
      rfl

/-- The cues behind the header are written up to the end of the last one. -/
theorem toText_concat (subtitle : Subtitle) (hparagraphs : subtitle.paragraphs = paragraphs ++ [p])
    (hregion : ∀ region ∈ p.region, newline ∉ region) :
    toText runtime subtitle = headerText subtitle ++ newline :: newline ::
      (paragraphs.flatMap (cueText runtime subtitle.hasHeader) ++
        lastText runtime subtitle.hasHeader p) := by
  obtain ⟨hne, hhead, -⟩ := headerText_spec subtitle
  obtain ⟨blank, hcue, hblank⟩ := lastText_append runtime subtitle.hasHeader p
  have htext : headerText subtitle ++ [newline, newline] ++
      subtitle.paragraphs.flatMap (cueText runtime subtitle.hasHeader) =
      headerText subtitle ++ newline :: newline ::
        (paragraphs.flatMap (cueText runtime subtitle.hasHeader) ++
          lastText runtime subtitle.hasHeader p) ++ blank := by
    rw [hparagraphs, List.flatMap_append, List.flatMap_singleton, hcue]
    simp
  rw [toText, htext]
  refine trimChars_append hblank (fun c hc => hhead c ?_) fun c hc => ?_
  · rwa [List.head?_append_of_ne_nil _ hne] at hc
  · rw [← cons_append, ← cons_append, ← List.append_assoc,
      List.getLast?_append_of_ne_nil _ lastText_ne_nil] at hc
    exact lastText_getLast? hregion hc

/-- **What is written behind the header is one block for each cue**, its timing line and lines of
text none of which is blank or has an arrow. -/
theorem toText_framed (subtitle : Subtitle) (h : ∀ p ∈ subtitle.paragraphs, Framable runtime p) :
    ∃ body, toText runtime subtitle = headerText subtitle ++ body ∧
      List.Forall₂ (Framed subtitle.hasHeader) subtitle.paragraphs
        (blocks (body.splitOn newline)) := by
  rcases List.eq_nil_or_concat subtitle.paragraphs with hnil | ⟨paragraphs, p, hconcat⟩
  · refine ⟨[], ?_, by rw [hnil]; exact .nil⟩
    obtain ⟨-, hhead, hlast⟩ := headerText_spec subtitle
    rw [toText, hnil, List.flatMap_nil, append_nil, append_nil]
    exact trimChars_append (by decide) hhead hlast
  · rw [List.concat_eq_append] at hconcat
    have hp : Framable runtime p := h p (by rw [hconcat]; simp)
    have hparagraphs : ∀ q ∈ paragraphs, Framable runtime q := fun q hq =>
      h q (by rw [hconcat]; simp [hq])
    refine ⟨_, toText_concat subtitle hconcat hp.region, ?_⟩
    have hblank : ∀ s : Text, blocks ((newline :: s).splitOn newline) =
        blocks (s.splitOn newline) := fun s => by
      rw [← List.nil_append (newline :: s),
        List.splitOn_append_cons_self_of_not_mem List.not_mem_nil, blocks_nil_cons]
    rw [hblank, hblank, blocks_flatMap hparagraphs, blocks_lastText hp, hconcat]
    refine List.rel_append ?_ (.cons (hp.framed (prefix_trimEnd _)) .nil)
    rw [List.forall₂_map_right_iff, List.forall₂_same]
    exact fun q hq => (hparagraphs q hq).framed List.prefix_rfl

def plainRuntime : Runtime :=
  ⟨asciiDigits, Char.isAlpha, fun _ => none, fun _ => none⟩

def oneCue (text : String) : Subtitle :=
  ⟨[⟨1, text.toList, .ofMilliseconds 1500, .ofMilliseconds 359999999, none⟩], []⟩

theorem toText_framed_tags : ∃ body, toText plainRuntime (oneCue "<i>a</i>\n\nb & \\Nc") =
    headerText (oneCue "<i>a</i>\n\nb & \\Nc") ++ body ∧
      List.Forall₂ (Framed false) (oneCue "<i>a</i>\n\nb & \\Nc").paragraphs
        (blocks (body.splitOn newline)) := by
  refine toText_framed (oneCue "<i>a</i>\n\nb & \\Nc") fun p hp => ?_
  rw [List.mem_singleton.mp hp]
  exact ⟨by decide +kernel, by decide +kernel, nofun, by decide +kernel⟩

/-- A text that starts with a line break is a block of its own, and the `-->` in a closing tag is
written as it is. -/
theorem unframed :
    (¬∃ body, toText plainRuntime (oneCue "\nA") = headerText (oneCue "\nA") ++ body ∧
      List.Forall₂ (Framed false) (oneCue "\nA").paragraphs (blocks (body.splitOn newline))) ∧
    ¬∃ body, toText plainRuntime (oneCue "</-->") = headerText (oneCue "</-->") ++ body ∧
      List.Forall₂ (Framed false) (oneCue "</-->").paragraphs (blocks (body.splitOn newline)) := by
  constructor
  · rintro ⟨body, hbody, hframed⟩
    have htext : toText plainRuntime (oneCue "\nA") = headerText (oneCue "\nA") ++
        "\n\n00:00:01.500 --> 99:59:59.999\n\nA".toList := by decide +kernel
    rw [← List.append_cancel_left (htext.symm.trans hbody)] at hframed
    exact absurd hframed.length_eq (by decide +kernel)
  · rintro ⟨body, hbody, hframed⟩
    have htext : toText plainRuntime (oneCue "</-->") = headerText (oneCue "</-->") ++
        "\n\n00:00:01.500 --> 99:59:59.999\n</-->".toList := by decide +kernel
    rw [← List.append_cancel_left (htext.symm.trans hbody)] at hframed
    have hblocks : blocks ("\n\n00:00:01.500 --> 99:59:59.999\n</-->".toList.splitOn newline) =
        [["00:00:01.500 --> 99:59:59.999".toList, "</-->".toList]] := by decide +kernel
    rw [hblocks] at hframed
    obtain ⟨text, hblock, hlines⟩ := (List.forall₂_cons.mp hframed).1
    obtain ⟨-, rfl⟩ := List.cons.inj hblock
    exact (hlines _ List.mem_cons_self).2 ⟨"</".toList, [], rfl⟩

end Ferrofin.Subtitles.Vtt
