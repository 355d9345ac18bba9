import Ferrofin.Lib.Blocks
import Ferrofin.Subtitles.Vtt

/-!
# The rewritings of a WebVTT text

A cue's text is solid when its override blocks are removed and its line breaks collapsed, unless it
starts with a line break (`solid_removeRecursiveLineBreaks`).  The other two rewritings replace
parts of lines and keep it so (`solid_colorHtmlToWebvtt`, `solid_escapeFrom`), and the last one
writes a `-->` only where its `>` closes a tag (`arrow_escapeFrom`).

A font colour that is replaced makes the text shorter, so that the replacing ends
(`FontTag.Shortens.stops`, `fontTags_shorten`).
-/

namespace Ferrofin.Subtitles.Vtt

open Lib (solid solid_append solid_replace solid_of_chain)
open Util (isWhitespace mem_replaceFrom replace replaceFrom replaceFrom_skip trimMatches)
open List (cons_append cons_ne_nil cons_prefix_cons dropWhile_sublist length_append mem_append
  mem_cons mem_cons_of_mem mem_cons_self mem_reverse mem_singleton)

variable {runtime : Runtime} {s x text front back value new : Text} {c : Char} {full : Bool}

/-! ### Where characters come from -/

theorem mem_removeBlocks {inside : Bool} (h : c ∈ removeBlocks inside s) : c ∈ s := by
  induction s generalizing inside with
  | nil => cases inside <;> cases h
  | cons a s ih =>
    cases inside with
    | false =>
      rw [removeBlocks] at h
      split at h
      · exact mem_cons_of_mem a (ih h)
      · exact mem_cons.mpr ((mem_cons.mp h).imp_right ih)
    | true =>
      rw [removeBlocks] at h
      split at h <;> exact mem_cons_of_mem a (ih h)

theorem mem_removeFromFirst (h : c ∈ removeFromFirst s) : c ∈ s := by
  induction s with
  | nil => cases h
  | cons a s ih =>
    rw [removeFromFirst] at h
    split at h
    · exact mem_removeBlocks h
    · exact mem_cons.mpr ((mem_cons.mp h).imp_right ih)

theorem mem_removeSsaTags (h : c ∈ removeSsaTags s) : c = ' ' ∨ c = newline ∨ c ∈ s := by
  rcases mem_replaceFrom h with h | h
  · exact .inl (mem_singleton.mp h)
  rcases mem_replaceFrom h with h | h
  · exact .inr (.inl (mem_singleton.mp h))
  rcases mem_replaceFrom h with h | h
  · exact .inr (.inl (mem_singleton.mp h))
  · exact .inr (.inr (mem_removeFromFirst h))

/-! ### Line breaks -/

theorem keptBreaks_chain (adjacent : Bool) (s : Text) :
    (keptBreaks false adjacent s).IsChain (fun a b => ¬(a = newline ∧ b = newline)) ∧
      (adjacent = true → (keptBreaks false adjacent s).head? ≠ some newline) := by
  induction s generalizing adjacent with
  | nil => exact ⟨List.isChain_nil, nofun⟩
  | cons a s ih =>
    rw [keptBreaks]
    simp only [Bool.false_and, Bool.false_or, Bool.not_false, Bool.true_and, beq_iff_eq]
    by_cases ha : a = newline
    · rw [if_pos ha]
      cases adjacent with
      | true => exact ⟨(ih true).1, fun _ => (ih true).2 rfl⟩
      | false =>
        have hbreak : (a == '\r' || a == newline) = true := by rw [ha]; decide
        rw [hbreak]
        refine ⟨?_, nofun⟩
        rw [if_neg Bool.false_ne_true, List.isChain_cons]
        exact ⟨fun b hb heq => (ih true).2 rfl (heq.2 ▸ hb), (ih true).1⟩
    · rw [if_neg ha, List.isChain_cons]
      exact ⟨⟨fun b _ heq => ha heq.1, (ih false).1⟩, fun _ heq => ha (Option.some.inj heq)⟩

theorem solid_removeRecursiveLineBreaks (hcr : '\r' ∉ s)
    (hhead : (removeRecursiveLineBreaks s).head? ≠ some newline) :
    solid newline false (removeRecursiveLineBreaks s) = true := by
  have hcontains : s.contains '\r' = false := by simpa using hcr
  refine solid_of_chain ?_ fun _ => hhead
  rw [removeRecursiveLineBreaks, hcontains, List.isChain_reverse]
  exact (keptBreaks_chain false s.reverse).1.imp fun a b h heq => h ⟨heq.2, heq.1⟩

/-! ### Font colours -/

theorem solid_replaceFrom {pattern by' : Text} (hpattern : newline ∉ pattern) (hne : pattern ≠ [])
    (hby : newline ∉ by') (hby' : by' ≠ []) (full : Bool) (s : Text) :
    solid newline full (replace pattern by' s) = solid newline full s := by
  induction hlength : s.length using Nat.strong_induction_on generalizing s full with
  | _ n ih =>
    cases s with
    | nil => rfl
    | cons a s =>
      rw [replace, replaceFrom]
      split
      · next hbegins =>
        obtain ⟨rest, hrest⟩ := List.isPrefixOf_iff_prefix.mp hbegins
        obtain ⟨b, tail, hpattern'⟩ := List.exists_cons_of_ne_nil hne
        have htail : replaceFrom pattern by' (pattern.length - 1) s =
            replaceFrom pattern by' 0 rest := by
          rw [hpattern', cons_append, List.cons.injEq] at hrest
          rw [← hrest.2, ← replaceFrom_skip pattern by' tail rest, hpattern']
          rfl
        have hlt : rest.length < n := by
          rw [← hlength, ← hrest, length_append]
          have := List.length_pos_of_ne_nil hne
          omega
        rw [htail, ← hrest, solid_append hby hby', solid_append hpattern hne]
        exact ih rest.length hlt true rest rfl
      · have hrec : ∀ full, solid newline full (replaceFrom pattern by' 0 s) =
            solid newline full s := fun full =>
          ih s.length (by simp at hlength; omega) full s rfl
        simp only [solid, hrec]

theorem FontTag.at_eq_some {tag : FontTag} (h : tag.at s = some (value, back)) :
    s = tag.opening ++ value ++ tag.closing ++ back ∧ ∀ c ∈ value, tag.test c = true := by
  simp only [FontTag.at, Option.ite_none_right_eq_some, Option.some.injEq, Prod.mk.injEq] at h
  obtain ⟨hopening, hclosing, rfl, rfl⟩ := h
  obtain ⟨rest, rfl⟩ := List.isPrefixOf_iff_prefix.mp hopening
  rw [List.drop_left] at hclosing ⊢
  obtain ⟨back, hback⟩ := List.isPrefixOf_iff_prefix.mp hclosing
  refine ⟨?_, fun c hc => List.mem_takeWhile_imp hc⟩
  rw [← hback, List.drop_left, List.append_assoc, List.append_assoc, hback,
    List.takeWhile_append_dropWhile]

theorem FontTag.find_eq_some {tag : FontTag} (h : tag.find s = some (front, value, back)) :
    s = front ++ (tag.opening ++ value ++ tag.closing) ++ back ∧
      ∀ c ∈ value, tag.test c = true := by
  induction s generalizing front with
  | nil => cases h
  | cons a s ih =>
    rw [FontTag.find] at h
    rcases hat : tag.at (a :: s) with _ | ⟨value', back'⟩
    · rw [hat] at h
      obtain ⟨⟨front', value', back'⟩, hfind, heq⟩ := Option.map_eq_some_iff.mp h
      cases heq
      obtain ⟨hs, htest⟩ := ih hfind
      exact ⟨by rw [hs]; rfl, htest⟩
    · rw [hat] at h
      cases h
      exact FontTag.at_eq_some hat

/-- A font tag whose characters are no line breaks, and whose classes are not either. -/
structure FontTag.OneLine (tag : FontTag) (class' : Text → Option Text) : Prop where
  opening : newline ∉ tag.opening ∧ tag.opening ≠ []
  test : tag.test newline = false
  closing : newline ∉ tag.closing
  class' : ∀ value, newline ∉ value → ∀ new ∈ class' value, newline ∉ new ∧ new ≠ []

theorem FontTag.OneLine.solid_replaceAll {tag : FontTag} {class' : Text → Option Text}
    (h : tag.OneLine class') (fuel : ℕ) (full : Bool) (s : Text) :
    solid newline full (tag.replaceAll class' fuel s) = solid newline full s := by
  induction fuel generalizing s with
  | zero => rfl
  | succ fuel ih =>
    rw [FontTag.replaceAll]
    rcases hfind : tag.find s with _ | ⟨front, value, back⟩
    · rfl
    · obtain ⟨hs, htest⟩ := FontTag.find_eq_some hfind
      have hvalue : newline ∉ value := fun hmem => by
        have := htest _ hmem
        rw [h.test] at this
        cases this
      dsimp only
      rcases hclass : class' value with _ | new
      · rfl
      · obtain ⟨hnew, hnew'⟩ := h.class' value hvalue new hclass
        have hold : newline ∉ tag.opening ++ value ++ tag.closing := by
          simp only [mem_append, not_or]
          exact ⟨⟨h.opening.1, hvalue⟩, h.closing⟩
        have hold' : tag.opening ++ value ++ tag.closing ≠ [] := by simp [h.opening.2]
        dsimp only
        rw [ih, hs, solid_replace hold hold' hnew hnew']

def FontTag.Shortens (tag : FontTag) (class' : Text → Option Text) : Prop :=
  ∀ value, ∀ new ∈ class' value, new.length < (tag.opening ++ value ++ tag.closing).length

/-- When the replacing ends, no tag is left, or the first one has no class. -/
theorem FontTag.Shortens.stops {tag : FontTag} {class' : Text → Option Text}
    (h : tag.Shortens class') {fuel : ℕ} (hfuel : s.length ≤ fuel) :
    ∀ front value back, tag.find (tag.replaceAll class' fuel s) = some (front, value, back) →
      class' value = none := by
  induction fuel generalizing s with
  | zero =>
    intro front value back hfind
    rw [FontTag.replaceAll, List.eq_nil_of_length_eq_zero (Nat.le_zero.mp hfuel)] at hfind
    cases hfind
  | succ fuel ih =>
    rw [FontTag.replaceAll]
    rcases hfind : tag.find s with _ | ⟨front, value, back⟩
    · intro front value back hfind'
      rw [hfind] at hfind'
      cases hfind'
    · dsimp only
      rcases hclass : class' value with _ | new
      · intro front' value' back' hfind'
        rw [hfind] at hfind'
        cases hfind'
        exact hclass
      · refine ih ?_
        have hshort := h value new hclass
        rw [(FontTag.find_eq_some hfind).1] at hfuel
        simp only [length_append] at hfuel hshort ⊢
        omega

theorem FontTag.replaceAll_of_notMem {tag : FontTag} {opening : Text} (class' : Text → Option Text)
    (htag : tag.opening = c :: opening) (h : c ∉ s) (fuel : ℕ) :
    tag.replaceAll class' fuel s = s := by
  cases fuel with
  | zero => rfl
  | succ fuel =>
    rw [FontTag.replaceAll]
    rcases hfind : tag.find s with _ | ⟨front, value, back⟩
    · rfl
    · refine absurd ?_ h
      rw [(FontTag.find_eq_some hfind).1, htag]
      simp

theorem mem_trimMatches {test : Char → Bool} (h : c ∈ trimMatches test s) : c ∈ s := by
  rw [trimMatches, mem_reverse] at h
  have hmem := (dropWhile_sublist test).subset h
  rw [mem_reverse] at hmem
  exact (dropWhile_sublist test).subset hmem

theorem mem_trimMatches_of {test : Char → Bool} (hmem : c ∈ s) (htest : test c = false) :
    c ∈ trimMatches test s := by
  have hdrop : ∀ s : Text, c ∈ s → c ∈ s.dropWhile test := by
    intro s hs
    rw [← List.takeWhile_append_dropWhile (p := test) (l := s), mem_append] at hs
    refine hs.resolve_left fun htake => ?_
    rw [List.mem_takeWhile_imp htake] at htest
    cases htest
  rw [trimMatches, mem_reverse]
  exact hdrop _ (mem_reverse.mpr (hdrop s hmem))

theorem trimQuotes_oneLine (h : newline ∉ s) (htag : '<' ∈ s) :
    newline ∉ trimQuotes s ∧ trimQuotes s ≠ [] := by
  refine ⟨fun hmem => h (mem_trimMatches (mem_trimMatches hmem)), ?_⟩
  exact List.ne_nil_of_mem (mem_trimMatches_of (mem_trimMatches_of htag (by decide)) (by decide))

theorem classTag_oneLine (h : newline ∉ value) :
    newline ∉ classTag value ∧ classTag value ≠ [] := by
  refine trimQuotes_oneLine ?_ (by simp)
  simp only [mem_append, not_or]
  exact ⟨⟨by decide, h⟩, by decide⟩

theorem newline_notMem_closeColor {tag close : Text} (h : closeColor runtime tag = some close) :
    newline ∉ close := by
  have hclasses : ∀ entry ∈ colorClasses, newline ∉ entry.1 := by decide
  rw [closeColor, Option.bind_eq_bind, Option.bind_eq_some_iff] at h
  obtain ⟨color, -, h⟩ := h
  obtain ⟨entry, hentry, rfl⟩ := Option.map_eq_some_iff.mp h
  exact hclasses entry (List.mem_of_find?_eq_some hentry)

theorem hexClass_oneLine (h : newline ∉ value) :
    newline ∉ hexClass runtime value ∧ hexClass runtime value ≠ [] := by
  rw [hexClass]
  split
  · next close hclose => exact classTag_oneLine (newline_notMem_closeColor hclose)
  · refine classTag_oneLine ?_
    rw [mem_append, not_or]
    exact ⟨by decide, h⟩

theorem hexDigit_ne (n : ℕ) : hexDigit n ≠ newline := by
  have hdigits : newline ∉ '0' :: "0123456789abcdef".toList := by decide
  refine ne_of_mem_of_not_mem ?_ hdigits
  rw [hexDigit, List.getD_eq_getElem?_getD]
  rcases hget : "0123456789abcdef".toList[n]? with _ | c
  · exact mem_cons_self
  · exact mem_cons_of_mem _ (List.mem_of_getElem? hget)

theorem newline_notMem_hexByte (n : Fin 256) : newline ∉ hexByte n := by
  rw [hexByte, mem_cons, mem_singleton, not_or]
  exact ⟨(hexDigit_ne _).symm, (hexDigit_ne _).symm⟩

theorem namedClass_oneLine (h : namedClass runtime value = some new) :
    newline ∉ new ∧ new ≠ [] := by
  obtain ⟨color, -, rfl⟩ := Option.map_eq_some_iff.mp h
  dsimp only
  split
  · next close hclose => exact classTag_oneLine (newline_notMem_closeColor hclose)
  · refine trimQuotes_oneLine ?_ (by simp)
    have hhex : newline ∉ (colorToHexWithTransparency color).dropWhile (· == '#') := fun hmem => by
      have hcolor := (dropWhile_sublist _).subset hmem
      simp only [colorToHexWithTransparency, mem_cons, mem_append] at hcolor
      rcases hcolor with heq | ((hr | hg) | hb) | ha
      · exact absurd heq (by decide)
      · exact newline_notMem_hexByte _ hr
      · exact newline_notMem_hexByte _ hg
      · exact newline_notMem_hexByte _ hb
      · exact newline_notMem_hexByte _ ha
    simp only [mem_append, mem_cons, not_or]
    exact ⟨⟨by decide, by decide, hhex⟩, by decide, List.not_mem_nil⟩

theorem isHex_newline : isHex runtime newline = false := by
  rw [isHex, runtime.digits.notBlank newline (by decide)]
  decide

theorem length_trimQuotes_le (s : Text) : (trimQuotes s).length ≤ s.length := by
  have htrim : ∀ (test : Char → Bool) (s : Text), (trimMatches test s).length ≤ s.length := by
    intro test s
    rw [trimMatches, List.length_reverse]
    refine (dropWhile_sublist test).length_le.trans ?_
    rw [List.length_reverse]
    exact (dropWhile_sublist test).length_le
  exact (htrim _ _).trans (htrim _ _)

theorem length_classTag_le (name : Text) : (classTag name).length ≤ name.length + 4 := by
  refine (length_trimQuotes_le _).trans ?_
  simp only [length_append]
  change 3 + name.length + 1 ≤ _
  omega

theorem length_closeColor_le {tag close : Text} (h : closeColor runtime tag = some close) :
    close.length ≤ 7 := by
  have hclasses : ∀ entry ∈ colorClasses, entry.1.length ≤ 7 := by decide
  rw [closeColor, Option.bind_eq_bind, Option.bind_eq_some_iff] at h
  obtain ⟨color, -, h⟩ := h
  obtain ⟨entry, hentry, rfl⟩ := Option.map_eq_some_iff.mp h
  exact hclasses entry (List.mem_of_find?_eq_some hentry)

/-- Each kind of font tag gets shorter, so that the length of a text is fuel enough. -/
theorem fontTags_shorten :
    htmlColor.Shortens (fun value => some (classTag value)) ∧
      htmlColor2.Shortens (fun value => some (classTag value)) ∧
      (htmlColor3 runtime).Shortens (fun tag => some (hexClass runtime tag)) ∧
      htmlColor4.Shortens (namedClass runtime) := by
  refine ⟨fun value new hnew => ?_, fun value new hnew => ?_, fun value new hnew => ?_,
    fun value new hnew => ?_⟩
  · cases hnew
    have hle := length_classTag_le value
    simp only [length_append]
    change _ < 13 + value.length + 2
    omega
  · cases hnew
    have hle := length_classTag_le value
    simp only [length_append]
    change _ < 12 + value.length + 1
    omega
  · cases hnew
    simp only [length_append]
    change _ < 14 + value.length + 2
    rw [hexClass]
    split
    · next close hclose =>
      have hle := length_classTag_le close
      have hclose := length_closeColor_le hclose
      omega
    · have hle := length_classTag_le ("color".toList ++ value)
      rw [length_append] at hle
      change _ ≤ 5 + value.length + 4 at hle
      omega
  · obtain ⟨color, -, rfl⟩ := Option.map_eq_some_iff.mp hnew
    simp only [length_append]
    change _ < 13 + value.length + 2
    split
    · next close hclose =>
      have hle := length_classTag_le close
      have hclose := length_closeColor_le hclose
      omega
    · refine (length_trimQuotes_le _).trans_lt ?_
      have hdrop := (dropWhile_sublist (· == '#')
        (l := colorToHexWithTransparency color)).length_le
      change _ ≤ 9 at hdrop
      simp only [length_append, List.length_cons, List.length_nil]
      change 2 + (_ + 1) + 1 < _
      omega

/-- **The passes over font tags end**: no tag with a colour is left but one without a value. -/
theorem fontTags_replaced (runtime : Runtime) (s : Text) :
    htmlColor.find (htmlColor.replaceAll (fun value => some (classTag value)) s.length s) = none ∧
      htmlColor2.find (htmlColor2.replaceAll (fun value => some (classTag value)) s.length s) =
        none ∧
      (htmlColor3 runtime).find
        ((htmlColor3 runtime).replaceAll (fun tag => some (hexClass runtime tag)) s.length s) =
          none ∧
      ∀ front value back, htmlColor4.find (htmlColor4.replaceAll (namedClass runtime) s.length s) =
        some (front, value, back) → namedClass runtime value = none := by
  have hgone : ∀ {tag : FontTag} {class' : Text → Text},
      tag.Shortens (fun value => some (class' value)) →
        tag.find (tag.replaceAll (fun value => some (class' value)) s.length s) = none := by
    intro tag class' h
    refine Option.eq_none_iff_forall_ne_some.mpr fun found hfind => ?_
    cases h.stops le_rfl _ _ _ hfind
  obtain ⟨hquoted, hunquoted, hhex, hnamed⟩ := @fontTags_shorten runtime
  exact ⟨hgone hquoted, hgone hunquoted, hgone hhex, hnamed.stops le_rfl⟩

theorem solid_colorPass (full : Bool) (s : Text) :
    solid newline full (colorPass runtime s) = solid newline full s := by
  have hquoted : htmlColor.OneLine fun value => some (classTag value) :=
    ⟨by decide, by decide, by decide, fun value hvalue new hnew =>
      Option.some.inj hnew ▸ classTag_oneLine hvalue⟩
  have hunquoted : htmlColor2.OneLine fun value => some (classTag value) :=
    ⟨by decide, by decide, by decide, fun value hvalue new hnew =>
      Option.some.inj hnew ▸ classTag_oneLine hvalue⟩
  have hhex : (htmlColor3 runtime).OneLine fun tag => some (hexClass runtime tag) :=
    ⟨(by decide : newline ∉ "<font color=\"#".toList ∧ "<font color=\"#".toList ≠ []),
      isHex_newline, (by decide : newline ∉ "\">".toList), fun value hvalue new hnew =>
      Option.some.inj hnew ▸ hexClass_oneLine hvalue⟩
  have hnamed : htmlColor4.OneLine (namedClass runtime) :=
    ⟨by decide, by decide, by decide, fun _ _ _ hnew => namedClass_oneLine hnew⟩
  rw [colorPass, hnamed.solid_replaceAll, hhex.solid_replaceAll, hunquoted.solid_replaceAll,
    hquoted.solid_replaceAll]

theorem colorPass_of_notMem (h : '<' ∉ s) : colorPass runtime s = s := by
  rw [colorPass, htmlColor.replaceAll_of_notMem _ rfl h, htmlColor2.replaceAll_of_notMem _ rfl h,
    (htmlColor3 runtime).replaceAll_of_notMem _ rfl h, htmlColor4.replaceAll_of_notMem _ rfl h]

theorem solid_colorHtmlToWebvtt (full : Bool) (s : Text) :
    solid newline full (colorHtmlToWebvtt runtime s) = solid newline full s := by
  rw [colorHtmlToWebvtt, solid_colorPass, solid_colorPass]
  exact solid_replaceFrom (by decide) (by decide) (by decide) (by decide) full s

/-! ### Escaping -/

theorem step_newline (state : Scanner) (s : Text) :
    (state.step runtime newline s).1 = [newline] := by
  rw [Scanner.step]
  split
  · rfl
  · rw [if_neg (by decide), if_neg (by decide), if_neg (by decide)]

variable (runtime) in
/-- A character that is no line break is written as something without one. -/
theorem step_oneLine (state : Scanner) (hc : newline ≠ c) (s : Text) :
    newline ∉ (state.step runtime c s).1 ∧ (state.step runtime c s).1 ≠ [] := by
  have hself : newline ∉ [c] ∧ [c] ≠ [] :=
    ⟨by rwa [mem_singleton], cons_ne_nil c []⟩
  have hescapes : (newline ∉ "&lt;".toList ∧ "&lt;".toList ≠ []) ∧
      (newline ∉ "&gt;".toList ∧ "&gt;".toList ≠ []) ∧
      (newline ∉ "&amp;".toList ∧ "&amp;".toList ≠ []) ∧ newline ∉ ['>'] ∧ newline ∉ ['&'] := by
    decide
  rw [Scanner.step]
  split
  · exact hself
  split
  · split
    · exact hself
    split
    · exact hself
    split
    · exact hself
    · exact hescapes.1
  split
  · dsimp only
    split
    · exact ⟨hescapes.2.2.2.1, cons_ne_nil _ _⟩
    · exact hescapes.2.1
  split
  · dsimp only
    split
    · exact ⟨hescapes.2.2.2.2, cons_ne_nil _ _⟩
    · exact hescapes.2.2.1
  · exact hself

theorem solid_escapeFrom (state : Scanner) (full : Bool) (s : Text) :
    solid newline full (escapeFrom runtime state s) = solid newline full s := by
  induction s generalizing state full with
  | nil => rfl
  | cons c s ih =>
    rw [escapeFrom]
    by_cases hc : c = newline
    · rw [hc, step_newline, List.singleton_append, solid, solid, if_pos rfl, if_pos rfl, ih]
    · obtain ⟨hfree, hne⟩ := step_oneLine runtime state (Ne.symm hc) s
      rw [solid_append hfree hne, ih, solid, if_neg hc]

theorem escapeFrom_eq_self (tagOn : Bool)
    (h : ∀ c ∈ s, (c == '<' || c == '>' || c == '&') = false) :
    escapeFrom runtime ⟨tagOn, 0⟩ s = s := by
  induction s with
  | nil => rfl
  | cons c s ih =>
    have hc := h c mem_cons_self
    simp only [Bool.or_eq_false_iff, beq_eq_false_iff_ne] at hc
    have hstep : Scanner.step runtime ⟨tagOn, 0⟩ c s = ([c], ⟨tagOn, 0⟩) := by
      rw [Scanner.step, if_neg (Nat.lt_irrefl 0), if_neg hc.1.1, if_neg hc.1.2, if_neg hc.2]
    rw [escapeFrom, hstep, ih fun d hd => h d (mem_cons_of_mem c hd)]
    rfl

theorem escapeEncodeText_eq (s : Text) :
    escapeEncodeText runtime s = escapeFrom runtime ⟨false, 0⟩ s := by
  rw [escapeEncodeText]
  split
  · rfl
  · next hany =>
    refine (escapeFrom_eq_self false fun c hc => ?_).symm
    rw [Bool.not_eq_true, List.any_eq_false] at hany
    exact Bool.eq_false_iff.mpr (hany c hc)

variable (runtime) in
/-- The `>` of some `-->` closes a tag that is kept. -/
def arrowCloses (state : Scanner) : Text → Bool
  | [] => false
  | c :: s => (state.keep == 0 && state.tagOn && "-->".toList.isPrefixOf (c :: s)) ||
      arrowCloses (state.step runtime c s).2 s

/-- The characters that are kept as they are, those of `<i>` and the like, are no dashes. -/
def Scanner.Keeps (state : Scanner) (s : Text) : Prop := '-' ∉ s.take state.keep

theorem keeps_zero (tagOn : Bool) (s : Text) : Scanner.Keeps ⟨tagOn, 0⟩ s := by
  simp [Scanner.Keeps]

theorem dash_notMem_take {pattern : List Char} (hdash : '-' ∉ pattern.map Char.toLower)
    (h : (pattern.map Char.toLower).isPrefixOf (s.map Char.toLower) = true) :
    '-' ∉ s.take pattern.length := by
  obtain ⟨rest, hrest⟩ := List.isPrefixOf_iff_prefix.mp h
  have htake : (s.take pattern.length).map Char.toLower = pattern.map Char.toLower := by
    have hlength : (pattern.map Char.toLower).length = pattern.length := List.length_map _
    rw [List.map_take, ← hrest, ← hlength, List.take_left]
  intro hmem
  refine hdash ?_
  rw [← htake]
  exact List.mem_map.mpr ⟨'-', hmem, by decide⟩

theorem Scanner.Keeps.step {state : Scanner} (h : state.Keeps (c :: s)) :
    (state.step runtime c s).2.Keeps s := by
  have hbegins : ∀ {pattern : String}, startsWith pattern (c :: s) = true →
      '-' ∉ pattern.toList.map Char.toLower → '-' ∉ s.take (pattern.toList.length - 1) := by
    intro pattern hstarts hdash hmem
    refine dash_notMem_take hdash hstarts ?_
    rcases hn : pattern.toList.length with _ | n
    · rw [hn, Nat.zero_sub, List.take_zero] at hmem
      cases hmem
    · rw [hn] at hmem
      exact mem_cons_of_mem c hmem
  rw [Scanner.step]
  split
  · next hkeep =>
    obtain ⟨n, hn⟩ := Nat.exists_eq_succ_of_ne_zero hkeep.ne'
    rw [Scanner.Keeps, hn, List.take_succ_cons, mem_cons, not_or] at h
    rw [Scanner.Keeps, hn]
    exact h.2
  · next hkeep =>
    obtain ⟨tagOn, keep⟩ := state
    obtain rfl : keep = 0 := Nat.eq_zero_of_not_pos hkeep
    split
    · split
      · next hany =>
        obtain ⟨pattern, hmem, hstarts⟩ := List.any_eq_true.mp hany
        have hpatterns : ∀ pattern ∈ ["<i>", "<b>", "<u>", "<c>", "<v>"],
            '-' ∉ pattern.toList.map Char.toLower ∧ pattern.toList.length = 3 := by decide
        obtain ⟨hdash, hlength⟩ := hpatterns pattern hmem
        have hkept := hbegins hstarts hdash
        rw [hlength] at hkept
        exact hkept
      split
      · next hstarts => exact hbegins hstarts (by decide)
      split
      · exact keeps_zero _ _
      · exact keeps_zero _ _
    split
    · exact keeps_zero _ _
    split
    · exact keeps_zero _ _
    · exact keeps_zero _ _

theorem step_dash {state : Scanner} (h : state.keep = 0) (s : Text) :
    state.step runtime '-' s = (['-'], state) := by
  rw [Scanner.step, if_neg (by omega), if_neg (by decide), if_neg (by decide), if_neg (by decide)]

variable (runtime) in
theorem dash_notMem_step (state : Scanner) (hc : '-' ≠ c) (s : Text) :
    '-' ∉ (state.step runtime c s).1 ∧ (state.step runtime c s).1 ≠ [] := by
  have hself : '-' ∉ [c] ∧ [c] ≠ [] := ⟨by rwa [mem_singleton], cons_ne_nil c []⟩
  have hescapes : ('-' ∉ "&lt;".toList ∧ "&lt;".toList ≠ []) ∧
      ('-' ∉ "&gt;".toList ∧ "&gt;".toList ≠ []) ∧
      ('-' ∉ "&amp;".toList ∧ "&amp;".toList ≠ []) ∧ '-' ∉ ['>'] ∧ '-' ∉ ['&'] := by decide
  rw [Scanner.step]
  split
  · exact hself
  split
  · split
    · exact hself
    split
    · exact hself
    split
    · exact hself
    · exact hescapes.1
  split
  · dsimp only
    split
    · exact ⟨hescapes.2.2.2.1, cons_ne_nil _ _⟩
    · exact hescapes.2.1
  split
  · dsimp only
    split
    · exact ⟨hescapes.2.2.2.2, cons_ne_nil _ _⟩
    · exact hescapes.2.2.1
  · exact hself

/-- A `>` is written for one that closes a tag. -/
theorem step_head {state : Scanner} (hkeep : state.keep = 0)
    (h : (state.step runtime c s).1.head? = some '>') : c = '>' ∧ state.tagOn = true := by
  have hself : [c].head? = some '>' → c = '>' := Option.some.inj
  rw [Scanner.step, if_neg (by omega)] at h
  split at h
  · next hc =>
    have hopens : ∀ state : Scanner, (([c], state) : Text × Scanner).1.head? ≠ some '>' :=
      fun _ heq => absurd (hc.symm.trans (hself heq)) (by decide)
    split at h
    · exact absurd h (hopens _)
    split at h
    · exact absurd h (hopens _)
    split at h
    · exact absurd h (hopens _)
    · exact absurd h (by decide : "&lt;".toList.head? ≠ some '>')
  split at h
  · next hc =>
    refine ⟨hc, ?_⟩
    dsimp only at h
    split at h
    · assumption
    · exact absurd h (by decide)
  split at h
  · dsimp only at h
    split at h <;> exact absurd h (by decide)
  · next hc _ => exact absurd (hself h) hc

/-- What starts with a symbol that a part does not have is behind that part. -/
theorem isInfix_of_notMem {a : Char} {pattern x y : Text} (hx : a ∉ x)
    (h : a :: pattern <:+: x ++ y) : a :: pattern <:+: y := by
  induction x with
  | nil => exact h
  | cons b x ih =>
    rw [mem_cons, not_or] at hx
    rw [cons_append, List.infix_cons_iff] at h
    rcases h with hbegins | hpart
    · exact absurd (cons_prefix_cons.mp hbegins).1 hx.1
    · exact ih hx.2 hpart

theorem escapeFrom_dash {state : Scanner} (hkeep : state.keep = 0) {pattern : Text}
    (h : '-' :: pattern <+: escapeFrom runtime state s) :
    ∃ rest, s = '-' :: rest ∧ pattern <+: escapeFrom runtime state rest := by
  cases s with
  | nil => exact absurd (List.prefix_nil.mp h) (cons_ne_nil _ _)
  | cons c s =>
    rw [escapeFrom] at h
    by_cases hc : '-' = c
    · rw [← hc, step_dash hkeep, List.singleton_append, cons_prefix_cons] at h
      exact ⟨s, by rw [hc], h.2⟩
    · obtain ⟨hdash, hne⟩ := dash_notMem_step runtime state hc s
      obtain ⟨b, out, hout⟩ := List.exists_cons_of_ne_nil hne
      rw [hout, cons_append, cons_prefix_cons] at h
      rw [hout, h.1] at hdash
      exact absurd mem_cons_self hdash

/-- **A `-->` is written only where its `>` closes a tag.** -/
theorem arrow_escapeFrom {state : Scanner} (hkeeps : state.Keeps s)
    (h : arrowCloses runtime state s = false) :
    ¬"-->".toList <:+: escapeFrom runtime state s := by
  have harrow : "-->".toList = ['-', '-', '>'] := rfl
  rw [harrow]
  induction s generalizing state with
  | nil => exact fun hpart => absurd (List.infix_nil.mp hpart) (by decide)
  | cons c s ih =>
    rw [arrowCloses, Bool.or_eq_false_iff] at h
    have hrest := ih hkeeps.step h.2
    rw [escapeFrom]
    by_cases hc : '-' = c
    · obtain rfl := hc
      have hkeep : state.keep = 0 := by
        by_contra hne
        obtain ⟨n, hn⟩ := Nat.exists_eq_succ_of_ne_zero hne
        rw [Scanner.Keeps, hn, List.take_succ_cons] at hkeeps
        exact hkeeps mem_cons_self
      rw [step_dash hkeep] at hrest ⊢
      intro hpart
      rcases List.infix_cons_iff.mp hpart with hbegins | hpart
      · obtain ⟨s₁, rfl, hclose⟩ := escapeFrom_dash hkeep (cons_prefix_cons.mp hbegins).2
        cases s₁ with
        | nil => exact absurd (List.prefix_nil.mp hclose) (cons_ne_nil _ _)
        | cons d s₁ =>
          have hhead : (state.step runtime d s₁).1.head? = some '>' := by
            have hne : (state.step runtime d s₁).1 ≠ [] := by
              by_cases hd : '-' = d
              · rw [← hd, step_dash hkeep]
                exact cons_ne_nil _ _
              · exact (dash_notMem_step runtime state hd s₁).2
            obtain ⟨b, out, hout⟩ := List.exists_cons_of_ne_nil hne
            rw [escapeFrom, hout, cons_append, cons_prefix_cons] at hclose
            rw [hout, ← hclose.1]
            rfl
          obtain ⟨rfl, htag⟩ := step_head hkeep hhead
          rw [hkeep, htag] at h
          exact absurd h.1 (by simp)
      · exact hrest hpart
    · intro hpart
      exact hrest (isInfix_of_notMem (dash_notMem_step runtime state hc s).1 hpart)

end Ferrofin.Subtitles.Vtt
