import Ferrofin.Lib.Pattern
import Ferrofin.Subtitles.Model
import Ferrofin.Util.Search
import Mathlib.Data.List.ModifyLast

/-!
# SubRip

The loader and the writer of SubRip files.  A cue is a timing line, perhaps with a number line
before it, and the text lines until the next cue; lines that are no cue are errors.

Arithmetic that overflows its type panics: such a load has no result.

The lines of a cue are its number, its timing, the lines of its text and blank ones, and the loader
takes them together when a cue or nothing is behind them (`loadCue_cueLines`).  A text that
`to_text` writes is the lines of its cues (`splitOn_toText`), the last one without the white space
at its end, so that loading them gives the cues again (`load_toText`).
-/

namespace Ferrofin.Subtitles.Srt

open Lib (Step begins)
open Util (decimal isWhitespace parseInt splitOnce trimChars)
open List (all_eq_true append_assoc append_nil cons_append flatMap_cons mem_append mem_cons_self
  mem_of_getLast? mem_of_head? mem_singleton nil_append)
open Option (bind_eq_bind bind_some)

/-! ### Timing lines -/

def lit (c : Char) : Step Char := .one (· == c)

def digits (d : DigitClass) : List (Step Char) := [.one d.isDigit, .many d.isDigit]

/-- `-?\d+:\d+:\d+[,.]\d+` -/
def timeCodePattern (d : DigitClass) (rest : List (Step Char)) : List (Step Char) :=
  .maybe (· == '-') :: (digits d ++ lit ':' :: (digits d ++ lit ':' :: (digits d ++
    .one (fun c => c == ',' || c == '.') :: (digits d ++ rest))))

/-- `^-?\d+:\d+:\d+[,.]\d+\s*-->\s*-?\d+:\d+:\d+[,.]\d+` -/
def timing (d : DigitClass) : List (Step Char) :=
  timeCodePattern d (.many isWhitespace :: lit '-' :: lit '-' :: lit '>' :: .many isWhitespace ::
    timeCodePattern d [])

def isTiming (d : DigitClass) (line : Text) : Bool := begins (timing d) line

def isBlank (line : Text) : Bool := (trimChars line).isEmpty

/-- A number of a type of `bits` bits, unless it overflows. -/
def checked (bits : ℕ) (n : ℤ) : Option ℤ :=
  if -2 ^ (bits - 1) ≤ n ∧ n < 2 ^ (bits - 1) then some n else none

def millisecondsOf (hours minutes seconds millis : ℤ) : Option ℤ := do
  let n ← checked 64 (hours * 60)
  let n ← checked 64 (n + minutes)
  let n ← checked 64 (n * 60)
  let n ← checked 64 (n + seconds)
  let n ← checked 64 (n * 1000)
  checked 64 (n + millis)

def timeFields (part : Text) : Option (ℤ × ℤ × ℤ × ℤ) := do
  let part := (trimChars part).map fun c => if c = '.' then ',' else c
  let (hms, millis) ← splitOnce [','] part
  match hms.splitOn ':' with
  | [hours, minutes, seconds] =>
    let hours ← parseInt 64 (trimChars hours)
    let minutes ← parseInt 64 (trimChars minutes)
    let seconds ← parseInt 64 (trimChars seconds)
    let millis ← parseInt 64 (trimChars millis)
    some (hours, minutes, seconds, millis)
  | _ => none

def parseTimecode (part : Text) : Option (Option TimeCode) :=
  match timeFields part with
  | none => some none
  | some (hours, minutes, seconds, millis) =>
    (millisecondsOf hours minutes seconds millis).map fun n => some ⟨n⟩

def parseTiming (line : Text) : Option (Option (TimeCode × TimeCode)) :=
  match splitOnce "-->".toList line with
  | none => some none
  | some (left, right) =>
    (parseTimecode left).bind fun
      | none => some none
      | some start => (parseTimecode right).map fun finish => finish.map (start, ·)

/-! ### Loading -/

variable (d : DigitClass)

def isCueHeader : List Text → Bool
  | [] => false
  | [line] => isTiming d line
  | line :: next :: _ =>
    isTiming d line || ((parseInt 64 (trimChars line)).isSome && isTiming d next)

def textLines : List Text → List Text
  | [] => []
  | line :: rest => if isCueHeader d (line :: rest) then [] else line :: textLines rest

def cueNumber : List Text → Option ℤ × List Text
  | [] => (none, [])
  | line :: rest =>
    if isTiming d line then (none, line :: rest)
    else
      match parseInt 32 (trimChars line) with
      | some n => (some n, rest)
      | none => (none, line :: rest)

structure Loaded where
  paragraphs : List Paragraph
  errors : ℤ
  deriving DecidableEq

def Loaded.fail (loaded : Loaded) : Option Loaded :=
  (checked 32 (loaded.errors + 1)).map fun errors => { loaded with errors }

/-- One more cue, with its own number or else the next one. -/
def Loaded.push (loaded : Loaded) (number : Option ℤ) (text : Text) (start finish : TimeCode) :
    Option Loaded := do
  let number ← match number with
    | some n => some n
    | none => checked 32 (min loaded.paragraphs.length (2 ^ 31 - 1) + 1)
  some { loaded with
    paragraphs := loaded.paragraphs ++ [⟨number, text, start, finish, none⟩] }

def loadCue (lines : List Text) (loaded : Loaded) : Option (ℕ × Loaded) :=
  let (number, rest) := cueNumber d lines
  match rest with
  | [] => loaded.fail.map (1, ·)
  | header :: body =>
    if isTiming d header then
      (parseTiming header).bind fun
        | none => loaded.fail.map (1, ·)
        | some (start, finish) =>
          let text := textLines d body
          (loaded.push number ([newline].intercalate (text.rdropWhile isBlank)) start finish).map
            (lines.length - body.length + text.length, ·)
    else loaded.fail.map (1, ·)

/-- Loads the lines behind the first ones that are taken already. -/
def loadFrom : (taken : ℕ) → List Text → Loaded → Option Loaded
  | _, [], loaded => some loaded
  | taken + 1, _ :: rest, loaded => loadFrom taken rest loaded
  | 0, line :: rest, loaded =>
    if isBlank line then loadFrom 0 rest loaded
    else
      match loadCue d (line :: rest) loaded with
      | none => none
      | some (taken, loaded) => loadFrom (taken - 1) rest loaded

def load (lines : List Text) : Option Loaded := loadFrom d 0 lines ⟨[], 0⟩

/-! ### Writing -/

def cueText (p : Paragraph) : Text :=
  decimal p.number ++ newline :: (p.startTime.toSrtString ++ " --> ".toList ++
    p.endTime.toSrtString ++ newline :: (p.text ++ [newline, newline]))

def toText (paragraphs : List Paragraph) : Text :=
  trimChars (paragraphs.flatMap cueText) ++ [newline, newline]

open Lib (begins_one begins_maybe begins_many begins_manyOne begins_append
  exists_of_begins)
open Util (decimal isWhitespace isWhitespace_of_isDigit parseInt parseInt_decimal mem_decimal
  splitOnce trimChars trimChars_append trimEnd trimEnd_append trimEnd_getLast? prefix_trimEnd)

variable {d} {p : Paragraph} {paragraphs : List Paragraph} {line text : Text}
  {lines rest : List Text} {loaded : Loaded} {n m : ℕ}

/-! ### Timing lines -/

def timeText (n : ℕ) : Text :=
  padded 2 (n / 3600000) ++ [':'] ++ padded 2 (n / 60000 % 60) ++ [':'] ++
    padded 2 (n / 1000 % 60) ++ [','] ++ padded 3 (n % 1000)

theorem begins_digits {k n : ℕ} {pattern : List (Step Char)} {s : Text}
    (h : begins pattern s = true) :
    begins (digits d ++ pattern) (padded k n ++ s) = true :=
  begins_manyOne (padded_ne_nil k n) (fun c hc => d.ascii c (isDigit_of_mem_padded hc)) h

theorem begins_timeCodePattern {pattern : List (Step Char)} {s : Text}
    (h : begins pattern s = true) :
    begins (timeCodePattern d pattern) (timeText n ++ s) = true := by
  rw [timeText, timeCodePattern]
  simp only [append_assoc]
  refine begins_maybe (begins_digits (begins_one rfl (begins_digits (begins_one rfl
    (begins_digits (begins_one rfl (begins_digits h)))))))

theorem isTiming_timeText (n m : ℕ) :
    isTiming d (timeText n ++ " --> ".toList ++ timeText m) = true := by
  have hend : begins (timeCodePattern d []) (timeText m) = true := by
    have hnil : begins (timeCodePattern d []) (timeText m ++ []) = true :=
      begins_timeCodePattern rfl
    rwa [append_nil] at hnil
  have hblank : ∀ c ∈ [' '], isWhitespace c = true := List.forall_mem_singleton.mpr rfl
  have harrow : " --> ".toList ++ timeText m =
      [' '] ++ '-' :: '-' :: '>' :: ([' '] ++ timeText m) := rfl
  rw [isTiming, timing, append_assoc, harrow]
  exact begins_timeCodePattern (begins_many hblank (begins_one rfl (begins_one rfl
    (begins_one rfl (begins_many hblank hend)))))

theorem colon_mem_of_isTiming (h : isTiming d line = true) : ':' ∈ line := by
  have hmem : Step.one (· == ':') ∈ timing d := by
    simp [timing, timeCodePattern, digits, lit]
  obtain ⟨c, hc, htest⟩ := exists_of_begins hmem h
  rwa [← eq_of_beq htest]

theorem isTiming_decimal (n : ℤ) : isTiming d (decimal n) = false := by
  refine Bool.eq_false_iff.mpr fun h => ?_
  rcases mem_decimal (colon_mem_of_isTiming h) with h | h <;> cases h

/-! ### Times as they are read -/

theorem trimChars_eq_self (hhead : ∀ c ∈ text.head?, isWhitespace c = false)
    (hlast : ∀ c ∈ text.getLast?, isWhitespace c = false) : trimChars text = text := by
  have hnil : trimChars (text ++ []) = text := trimChars_append rfl hhead hlast
  rwa [append_nil] at hnil

theorem trimChars_padded (k n : ℕ) : trimChars (padded k n) = padded k n :=
  trimChars_eq_self
    (fun _ hc => isWhitespace_of_isDigit (isDigit_of_mem_padded (mem_of_head? hc)))
    (fun _ hc => isWhitespace_of_isDigit (isDigit_of_mem_padded (mem_of_getLast? hc)))

theorem mem_timeText {c : Char} (h : c ∈ timeText n) :
    c.isDigit = true ∨ c = ':' ∨ c = ',' := by
  simp only [timeText, mem_append, mem_singleton] at h
  rcases h with (((((h | h) | h) | h) | h) | h) | h
  all_goals first
    | exact .inl (isDigit_of_mem_padded h)
    | exact .inr (.inl h)
    | exact .inr (.inr h)

theorem not_isWhitespace_of_mem_timeText {c : Char} (h : c ∈ timeText n) :
    isWhitespace c = false := by
  rcases mem_timeText h with h | rfl | rfl
  · exact isWhitespace_of_isDigit h
  · decide
  · decide

theorem notMem_timeText {c : Char} (hdigit : c.isDigit = false) (hcolon : c ≠ ':')
    (hcomma : c ≠ ',') : c ∉ timeText n := fun h => by
  rcases mem_timeText h with h | h | h
  · rw [h] at hdigit
    cases hdigit
  · exact hcolon h
  · exact hcomma h

theorem notMem_padded {c : Char} {k : ℕ} (hdigit : c.isDigit = false) : c ∉ padded k n := by
  intro h
  rw [isDigit_of_mem_padded h] at hdigit
  cases hdigit

theorem timeFields_timeText {part : Text} (h : n ≤ 359999999)
    (htrim : trimChars part = timeText n) :
    timeFields part = some (((n / 3600000 : ℕ) : ℤ), ((n / 60000 % 60 : ℕ) : ℤ),
      ((n / 1000 % 60 : ℕ) : ℤ), ((n % 1000 : ℕ) : ℤ)) := by
  have hpoint : (timeText n).map (fun c => if c = '.' then ',' else c) = timeText n := by
    refine (List.map_congr_left fun c hc => if_neg ?_).trans (List.map_id _)
    rintro rfl
    exact notMem_timeText rfl (by decide) (by decide) hc
  have hcomma : ',' ∉ padded 2 (n / 3600000) ++ [':'] ++ padded 2 (n / 60000 % 60) ++ [':'] ++
      padded 2 (n / 1000 % 60) := by
    simp only [mem_append, mem_singleton, not_or]
    exact ⟨⟨⟨⟨notMem_padded rfl, by decide⟩, notMem_padded rfl⟩, by decide⟩, notMem_padded rfl⟩
  have hsplit : splitOnce [','] (timeText n) = some (padded 2 (n / 3600000) ++ [':'] ++
      padded 2 (n / 60000 % 60) ++ [':'] ++ padded 2 (n / 1000 % 60), padded 3 (n % 1000)) :=
    Util.splitOnce_append hcomma _
  have hfields : (padded 2 (n / 3600000) ++ [':'] ++ padded 2 (n / 60000 % 60) ++ [':'] ++
      padded 2 (n / 1000 % 60)).splitOn ':' =
      [padded 2 (n / 3600000), padded 2 (n / 60000 % 60), padded 2 (n / 1000 % 60)] := by
    simp only [append_assoc, cons_append, nil_append]
    rw [List.splitOn_append_cons_self_of_not_mem (notMem_padded rfl),
      List.splitOn_append_cons_self_of_not_mem (notMem_padded rfl),
      List.splitOn_eq_singleton (notMem_padded rfl)]
  have hparse : ∀ k m : ℕ, m < 2 ^ 63 → parseInt 64 (trimChars (padded k m)) = some (m : ℤ) :=
    fun k m hm => by
      rw [trimChars_padded]
      exact parseInt_padded k hm
  rw [timeFields, htrim, hpoint, hsplit]
  simp only [bind_eq_bind, bind_some, hfields]
  rw [hparse _ _ (by omega), hparse _ _ (by omega), hparse _ _ (by omega), hparse _ _ (by omega)]
  rfl

theorem checked_of_bounds {bits : ℕ} {n : ℤ} (hmin : -2 ^ (bits - 1) ≤ n)
    (hmax : n < 2 ^ (bits - 1)) : checked bits n = some n := if_pos ⟨hmin, hmax⟩

theorem millisecondsOf_fields (h : n ≤ 359999999) :
    millisecondsOf (n / 3600000 : ℕ) (n / 60000 % 60 : ℕ) (n / 1000 % 60 : ℕ) (n % 1000 : ℕ) =
      some (n : ℤ) := by
  have hchecked : ∀ m : ℤ, 0 ≤ m → m < 2 ^ 63 → checked 64 m = some m :=
    fun m hm hlt => checked_of_bounds (le_trans (by norm_num) hm) hlt
  rw [millisecondsOf]
  simp only [bind_eq_bind]
  rw [hchecked _ (by omega) (by omega), bind_some, hchecked _ (by omega) (by omega),
    bind_some, hchecked _ (by omega) (by omega), bind_some,
    hchecked _ (by omega) (by omega), bind_some, hchecked _ (by omega) (by omega),
    bind_some, hchecked _ (by omega) (by omega)]
  exact congrArg some (by omega)

theorem parseTimecode_timeText {part : Text} (h : n ≤ 359999999)
    (htrim : trimChars part = timeText n) :
    parseTimecode part = some (some (TimeCode.ofMilliseconds n)) := by
  rw [parseTimecode, timeFields_timeText h htrim]
  dsimp only
  rw [millisecondsOf_fields h]
  rfl

theorem parseTiming_timeText (hn : n ≤ 359999999) (hm : m ≤ 359999999) :
    parseTiming (timeText n ++ " --> ".toList ++ timeText m) =
      some (some (TimeCode.ofMilliseconds n, TimeCode.ofMilliseconds m)) := by
  have hdash : '-' ∉ timeText n ++ [' '] := by
    simp only [mem_append, mem_singleton, not_or]
    exact ⟨notMem_timeText rfl (by decide) (by decide), by decide⟩
  have hline : timeText n ++ " --> ".toList ++ timeText m =
      timeText n ++ [' '] ++ "-->".toList ++ ([' '] ++ timeText m) := by
    simp only [append_assoc]
    rfl
  have hleft : trimChars (timeText n ++ [' ']) = timeText n :=
    trimChars_append (by decide)
      (fun c hc => not_isWhitespace_of_mem_timeText (mem_of_head? hc))
      (fun c hc => not_isWhitespace_of_mem_timeText (mem_of_getLast? hc))
  have htrim : trimChars (timeText m) = timeText m :=
    trimChars_eq_self
      (fun c hc => not_isWhitespace_of_mem_timeText (mem_of_head? hc))
      (fun c hc => not_isWhitespace_of_mem_timeText (mem_of_getLast? hc))
  -- the blank in front is dropped first
  have hright : trimChars ([' '] ++ timeText m) = timeText m := htrim
  have hsplit : splitOnce "-->".toList (timeText n ++ [' '] ++ "-->".toList ++
      ([' '] ++ timeText m)) = some (timeText n ++ [' '], [' '] ++ timeText m) :=
    Util.splitOnce_append hdash _
  rw [parseTiming, hline, hsplit]
  dsimp only
  rw [parseTimecode_timeText hn hleft, bind_some, parseTimecode_timeText hm hright]
  rfl

/-! ### The lines of a cue -/

def bodyLines (text : Text) : List Text := if text = [] then [] else text.splitOn newline

/-- A cue that can be written and read: its number and times are in range, and no line of its text
is blank or a timing line. -/
structure Written (d : DigitClass) (p : Paragraph) : Prop where
  number : -2 ^ 31 ≤ p.number ∧ p.number < 2 ^ 31
  startTime : ∃ n ≤ 359999999, p.startTime = .ofMilliseconds n
  endTime : ∃ n ≤ 359999999, p.endTime = .ofMilliseconds n
  text : ∀ line ∈ bodyLines p.text, isBlank line = false ∧ isTiming d line = false

def timingLine (p : Paragraph) : Text :=
  p.startTime.toSrtString ++ " --> ".toList ++ p.endTime.toSrtString

def cueLines (p : Paragraph) : List Text :=
  decimal p.number :: timingLine p :: bodyLines p.text

theorem Written.isTiming (h : Written d p) : isTiming d (timingLine p) = true := by
  obtain ⟨n, hn, hstart⟩ := h.startTime
  obtain ⟨m, hm, hend⟩ := h.endTime
  rw [timingLine, hstart, hend, toSrtString_ofMilliseconds hn, toSrtString_ofMilliseconds hm]
  exact isTiming_timeText n m

theorem Written.parseTiming (h : Written d p) :
    parseTiming (timingLine p) = some (some (p.startTime, p.endTime)) := by
  obtain ⟨n, hn, hstart⟩ := h.startTime
  obtain ⟨m, hm, hend⟩ := h.endTime
  rw [timingLine, hstart, hend, toSrtString_ofMilliseconds hn, toSrtString_ofMilliseconds hm]
  exact parseTiming_timeText hn hm

theorem not_isWhitespace_of_mem_decimal {c : Char} {n : ℤ} (h : c ∈ decimal n) :
    isWhitespace c = false := by
  rcases mem_decimal h with h | rfl
  · exact isWhitespace_of_isDigit h
  · decide

theorem decimal_ne_nil (n : ℤ) : decimal n ≠ [] := by
  rw [decimal]
  split
  · exact List.cons_ne_nil _ _
  · exact Nat.toDigits_ne_nil

theorem trimChars_decimal (n : ℤ) : trimChars (decimal n) = decimal n :=
  trimChars_eq_self (fun _ hc => not_isWhitespace_of_mem_decimal (mem_of_head? hc))
    (fun _ hc => not_isWhitespace_of_mem_decimal (mem_of_getLast? hc))

theorem isBlank_decimal (n : ℤ) : isBlank (decimal n) = false := by
  rw [isBlank, trimChars_decimal, List.isEmpty_eq_false_iff]
  exact decimal_ne_nil n

def Ends (d : DigitClass) (rest : List Text) : Prop :=
  rest = [] ∨ isCueHeader d rest = true ∧ ∀ line ∈ rest.head?, isTiming d line = false

theorem Written.ends (h : Written d p) (rest : List Text) : Ends d (cueLines p ++ rest) := by
  refine .inr ⟨?_, fun line hline => ?_⟩
  · rw [cueLines, cons_append, cons_append, isCueHeader, isTiming_decimal,
      trimChars_decimal, parseInt_decimal (by have := h.number; omega)
      (by have := h.number; omega), h.isTiming]
    rfl
  · rw [← Option.some.inj hline]
    exact isTiming_decimal p.number

theorem textLines_append (hlines : ∀ line ∈ lines, isTiming d line = false) (hrest : Ends d rest) :
    textLines d (lines ++ rest) = lines := by
  induction lines with
  | nil =>
    rcases hrest with rfl | ⟨hheader, -⟩
    · rfl
    · cases rest with
      | nil => rfl
      | cons line rest => rw [nil_append, textLines, if_pos hheader]
  | cons line lines ih =>
    have hfirst := hlines line mem_cons_self
    have hlines' : ∀ l ∈ lines, Srt.isTiming d l = false := fun l hl =>
      hlines l (List.mem_cons_of_mem line hl)
    have hnext : ∀ l ∈ (lines ++ rest).head?, Srt.isTiming d l = false := by
      cases lines with
      | nil =>
        rcases hrest with rfl | ⟨-, hhead⟩
        · nofun
        · exact hhead
      | cons next lines =>
        intro l hl
        rw [← Option.some.inj hl]
        exact hlines' next mem_cons_self
    have hheader : ¬isCueHeader d (line :: (lines ++ rest)) = true := by
      cases hl : lines ++ rest with
      | nil => rw [isCueHeader, hfirst]; exact Bool.false_ne_true
      | cons next others =>
        rw [hl] at hnext
        rw [isCueHeader, hfirst, hnext next rfl, Bool.and_false]
        exact Bool.false_ne_true
    rw [cons_append, textLines, if_neg hheader, ih hlines']

theorem rdropWhile_blanks {body blanks : List Text} (hbody : ∀ line ∈ body, isBlank line = false)
    (hblanks : ∀ line ∈ blanks, isBlank line = true) :
    (body ++ blanks).rdropWhile isBlank = body := by
  induction blanks using List.reverseRecOn with
  | nil =>
    rw [append_nil, List.rdropWhile_eq_self_iff]
    exact fun hne => Bool.eq_false_iff.mp (hbody _ (List.getLast_mem hne))
  | append_singleton blanks blank ih =>
    rw [← append_assoc, List.rdropWhile_concat_pos _ _ _ (hblanks blank (by simp))]
    exact ih fun line hline => hblanks line (by simp [hline])

theorem intercalate_bodyLines (text : Text) : [newline].intercalate (bodyLines text) = text := by
  rw [bodyLines]
  split
  · next hnil => rw [hnil]; rfl
  · exact List.intercalate_splitOn newline

/-! ### Loading a cue -/

def Loaded.add (loaded : Loaded) (paragraphs : List Paragraph) : Loaded :=
  { loaded with paragraphs := loaded.paragraphs ++ paragraphs }

theorem isTiming_of_isBlank (h : isBlank line = true) : isTiming d line = false := by
  refine Bool.eq_false_iff.mpr fun htiming => ?_
  obtain ⟨front, back, heq, hfront, hback⟩ := Util.trimChars_eq line
  have hcolon := colon_mem_of_isTiming htiming
  rw [heq, List.isEmpty_iff.mp h, append_nil] at hcolon
  rcases mem_append.mp hcolon with hmem | hmem
  · exact absurd (all_eq_true.mp hfront _ hmem) (by decide)
  · exact absurd (all_eq_true.mp hback _ hmem) (by decide)

theorem loadCue_cueLines {blanks : List Text} (h : Written d p)
    (hblanks : ∀ line ∈ blanks, isBlank line = true) (hrest : Ends d rest) :
    loadCue d (cueLines p ++ blanks ++ rest) loaded =
      some ((cueLines p ++ blanks).length, loaded.add [p.plain]) := by
  have htiming : ∀ line ∈ bodyLines p.text ++ blanks, Srt.isTiming d line = false := by
    intro line hline
    rcases mem_append.mp hline with hline | hline
    · exact (h.text line hline).2
    · exact isTiming_of_isBlank (hblanks line hline)
  have hnumber : cueNumber d (cueLines p ++ blanks ++ rest) =
      (some p.number, timingLine p :: (bodyLines p.text ++ blanks ++ rest)) := by
    rw [cueLines, cons_append, cons_append, cueNumber, isTiming_decimal,
      trimChars_decimal, parseInt_decimal h.number.1 h.number.2]
    rfl
  have htext := textLines_append htiming hrest
  have hbody := rdropWhile_blanks (fun line hline => (h.text line hline).1) hblanks
  rw [loadCue, hnumber]
  dsimp only
  rw [if_pos h.isTiming, h.parseTiming, bind_some, htext, hbody, intercalate_bodyLines]
  dsimp only [Loaded.push]
  rw [bind_eq_bind, bind_some, Option.map_some]
  refine congrArg some (Prod.ext ?_ rfl)
  simp only [cueLines, List.length_append, List.length_cons]
  omega

theorem loadFrom_append (lines rest : List Text) (loaded : Loaded) :
    loadFrom d lines.length (lines ++ rest) loaded = loadFrom d 0 rest loaded := by
  induction lines with
  | nil => rfl
  | cons line lines ih => rw [cons_append, List.length_cons, loadFrom, ih]

theorem loadFrom_cueLines {blanks : List Text} (h : Written d p)
    (hblanks : ∀ line ∈ blanks, isBlank line = true) (hrest : Ends d rest) :
    loadFrom d 0 (cueLines p ++ blanks ++ rest) loaded =
      loadFrom d 0 rest (loaded.add [p.plain]) := by
  have hcue : loadCue d (cueLines p ++ blanks ++ rest) loaded =
      some ((cueLines p ++ blanks).length, loaded.add [p.plain]) :=
    loadCue_cueLines h hblanks hrest
  rw [cueLines, cons_append, cons_append] at hcue ⊢
  rw [loadFrom, isBlank_decimal, if_neg Bool.false_ne_true, hcue]
  exact loadFrom_append (timingLine p :: bodyLines p.text ++ blanks) rest _

/-! ### The lines of the text -/

def blockLines (p : Paragraph) : List Text :=
  decimal p.number :: timingLine p :: (p.text.splitOn newline ++ [[]])

theorem exists_blanks (p : Paragraph) : ∃ blanks, blockLines p = cueLines p ++ blanks ∧
    ∀ line ∈ blanks, isBlank line = true := by
  by_cases htext : p.text = []
  · refine ⟨[[], []], ?_, by simp [isBlank, trimChars]⟩
    rw [blockLines, cueLines, bodyLines, if_pos htext, htext]
    rfl
  · refine ⟨[[]], ?_, by simp [isBlank, trimChars]⟩
    rw [blockLines, cueLines, bodyLines, if_neg htext]
    rfl

theorem loadFrom_blockLines (h : ∀ p ∈ paragraphs, Written d p) (hrest : Ends d rest) :
    loadFrom d 0 (paragraphs.flatMap blockLines ++ rest) loaded =
      loadFrom d 0 rest (loaded.add (paragraphs.map Paragraph.plain)) := by
  induction paragraphs generalizing loaded with
  | nil => simp [Loaded.add]
  | cons p paragraphs ih =>
    have hparagraphs : ∀ q ∈ paragraphs, Written d q := fun q hq =>
      h q (List.mem_cons_of_mem p hq)
    have hends : Ends d (paragraphs.flatMap blockLines ++ rest) := by
      cases paragraphs with
      | nil => exact hrest
      | cons q paragraphs =>
        obtain ⟨blanks, hblock, -⟩ := exists_blanks q
        rw [flatMap_cons, hblock, append_assoc, append_assoc]
        exact (hparagraphs q mem_cons_self).ends _
    obtain ⟨blanks, hblock, hblanks⟩ := exists_blanks p
    rw [flatMap_cons, hblock, append_assoc, loadFrom_cueLines (h p mem_cons_self)
      hblanks hends, ih hparagraphs]
    simp [Loaded.add]

theorem newline_notMem_timingLine (h : Written d p) : newline ∉ timingLine p := by
  obtain ⟨n, hn, hstart⟩ := h.startTime
  obtain ⟨m, hm, hend⟩ := h.endTime
  rw [timingLine, hstart, hend, toSrtString_ofMilliseconds hn, toSrtString_ofMilliseconds hm]
  change newline ∉ timeText n ++ " --> ".toList ++ timeText m
  rw [mem_append, mem_append, not_or, not_or]
  exact ⟨⟨notMem_timeText rfl (by decide) (by decide), by decide⟩,
    notMem_timeText rfl (by decide) (by decide)⟩

theorem newline_notMem_decimal (n : ℤ) : newline ∉ decimal n := fun h => by
  rcases mem_decimal h with h | h <;> cases h

theorem splitOn_header (h : Written d p) (s : Text) :
    (decimal p.number ++ newline :: (timingLine p ++ newline :: s)).splitOn newline =
      decimal p.number :: timingLine p :: s.splitOn newline := by
  rw [List.splitOn_append_cons_self_of_not_mem (newline_notMem_decimal _),
    List.splitOn_append_cons_self_of_not_mem (newline_notMem_timingLine h)]

theorem splitOn_cueText (h : Written d p) (s : Text) :
    (cueText p ++ s).splitOn newline = blockLines p ++ s.splitOn newline := by
  have htext : cueText p ++ s = decimal p.number ++ newline :: (timingLine p ++
      newline :: (p.text ++ newline :: newline :: s)) := by
    simp [cueText, timingLine]
  rw [htext, splitOn_header h, List.splitOn_append_cons_self,
    ← nil_append (newline :: s), List.splitOn_append_cons_self]
  simp [blockLines]

theorem splitOn_flatMap_cueText (h : ∀ p ∈ paragraphs, Written d p) (s : Text) :
    (paragraphs.flatMap cueText ++ s).splitOn newline =
      paragraphs.flatMap blockLines ++ s.splitOn newline := by
  induction paragraphs with
  | nil => rfl
  | cons p paragraphs ih =>
    rw [flatMap_cons, append_assoc, splitOn_cueText (h p mem_cons_self),
      ih fun q hq => h q (List.mem_cons_of_mem p hq), flatMap_cons, append_assoc]

/-! ### The end of the text -/

def trimmedCue (p : Paragraph) : Paragraph := { p with text := trimEnd p.text }

/-- A text that is not blank is not blank without the white space at its end. -/
theorem isBlank_trimEnd (h : isBlank line = false) :
    trimEnd line ≠ [] ∧ isBlank (trimEnd line) = false := by
  have hne : trimEnd line ≠ [] := by
    intro hnil
    obtain ⟨blank, heq, hblank⟩ := trimEnd_append line
    rw [hnil, nil_append] at heq
    have htrim : trimChars blank = [] := by
      have := trimChars_append (s := []) hblank nofun nofun
      rwa [nil_append] at this
    rw [isBlank, heq, htrim] at h
    cases h
  refine ⟨hne, Bool.eq_false_iff.mpr fun hblank => ?_⟩
  obtain ⟨front, back, heq, hfront, hback⟩ := Util.trimChars_eq (trimEnd line)
  rw [List.isEmpty_iff.mp hblank, append_nil] at heq
  obtain ⟨c, hc⟩ := List.getLast?_isSome.mpr hne |> Option.isSome_iff_exists.mp
  have hwhite : isWhitespace c = true := by
    have hmem := mem_of_getLast? hc
    rw [heq] at hmem
    rcases mem_append.mp hmem with hmem | hmem
    · exact all_eq_true.mp hfront c hmem
    · exact all_eq_true.mp hback c hmem
  rw [trimEnd_getLast? hc] at hwhite
  cases hwhite

theorem isTiming_trimEnd (h : isTiming d line = false) : isTiming d (trimEnd line) = false := by
  obtain ⟨blank, heq, -⟩ := trimEnd_append line
  refine Bool.eq_false_iff.mpr fun htiming => ?_
  have hlong := begins_append htiming blank
  rw [← heq] at hlong
  rw [isTiming, hlong] at h
  cases h

theorem exists_last_line (text : Text) :
    newline ∉ text ∨ ∃ front last, text = front ++ newline :: last ∧ newline ∉ last := by
  induction text with
  | nil => exact .inl List.not_mem_nil
  | cons c text ih =>
    rcases ih with hnone | ⟨front, last, rfl, hlast⟩
    · by_cases hc : newline = c
      · exact .inr ⟨[], text, by rw [hc, nil_append], hnone⟩
      · exact .inl (by simp [hc, hnone])
    · exact .inr ⟨c :: front, last, rfl, hlast⟩

/-- The lines are those of the text, the last one without the white space at its end. -/
theorem Written.trimmed (h : Written d p) : Written d (trimmedCue p) := by
  refine ⟨h.number, h.startTime, h.endTime, ?_⟩
  change ∀ line ∈ bodyLines (trimEnd p.text), _
  have htext := h.text
  generalize p.text = text at htext
  by_cases hnil : text = []
  · rw [hnil]
    nofun
  rw [bodyLines, if_neg hnil] at htext
  have hkept : ∀ line, newline ∉ line → newline ∉ trimEnd line := fun line hline hmem =>
    hline ((prefix_trimEnd line).subset hmem)
  rcases exists_last_line text with hone | ⟨front, last, rfl, hlast⟩
  · rw [List.splitOn_eq_singleton hone] at htext
    obtain ⟨hblank, htiming⟩ := htext text mem_cons_self
    have htrim := isBlank_trimEnd hblank
    rw [bodyLines, if_neg htrim.1, List.splitOn_eq_singleton (hkept text hone)]
    intro line hline
    rw [mem_singleton.mp hline]
    exact ⟨htrim.2, isTiming_trimEnd htiming⟩
  · rw [List.splitOn_append_cons_self, List.splitOn_eq_singleton hlast] at htext
    obtain ⟨hblank, htiming⟩ := htext last (by simp)
    have htrim := isBlank_trimEnd hblank
    have hend : trimEnd (front ++ newline :: last) = front ++ newline :: trimEnd last := by
      rw [trimEnd, List.rdropWhile, ← List.singleton_append, ← append_assoc,
        List.reverse_append, List.dropWhile_append, if_neg, List.reverse_append,
        List.reverse_reverse]
      · simp [trimEnd, List.rdropWhile]
      · intro hempty
        exact htrim.1 (by rw [trimEnd, List.rdropWhile, List.isEmpty_iff.mp hempty]; rfl)
    rw [hend, bodyLines, if_neg (by simp), List.splitOn_append_cons_self,
      List.splitOn_eq_singleton (hkept last hlast)]
    intro line hline
    rcases mem_append.mp hline with hline | hline
    · exact htext line (List.mem_append_left _ hline)
    · rw [mem_singleton.mp hline]
      exact ⟨htrim.2, isTiming_trimEnd htiming⟩

def lastText (p : Paragraph) : Text :=
  decimal p.number ++ newline :: (timingLine p ++
    if trimEnd p.text = [] then [] else newline :: trimEnd p.text)

theorem lastText_append (p : Paragraph) :
    ∃ blank, cueText p = lastText p ++ blank ∧ blank.all isWhitespace = true := by
  obtain ⟨blank, heq, hblank⟩ := trimEnd_append p.text
  have hnewlines : [newline, newline].all isWhitespace = true := by decide
  by_cases hnil : trimEnd p.text = []
  · refine ⟨newline :: (blank ++ [newline, newline]), ?_, ?_⟩
    · rw [hnil, nil_append] at heq
      rw [lastText, if_pos hnil, cueText, heq]
      simp [timingLine]
    · rw [List.all_cons, List.all_append, hblank, hnewlines]
      decide
  · refine ⟨blank ++ [newline, newline], ?_, by rw [List.all_append, hblank, hnewlines]; rfl⟩
    rw [lastText, if_neg hnil, cueText]
    conv_lhs => rw [heq]
    simp [timingLine]

theorem Written.lastText_getLast? (h : Written d p) {c : Char}
    (hc : (lastText p).getLast? = some c) : isWhitespace c = false := by
  rw [lastText] at hc
  by_cases hnil : trimEnd p.text = []
  · obtain ⟨m, hm, hend⟩ := h.endTime
    have hne : timeText m ≠ [] := by simp [timeText]
    have hlast : decimal p.number ++ newline :: (timingLine p ++ []) = (decimal p.number ++
        newline :: (p.startTime.toSrtString ++ " --> ".toList)) ++ timeText m := by
      rw [timingLine, hend, toSrtString_ofMilliseconds hm, ← timeText]
      simp
    rw [if_pos hnil, hlast, List.getLast?_append_of_ne_nil _ hne] at hc
    exact not_isWhitespace_of_mem_timeText (mem_of_getLast? hc)
  · have hlast : decimal p.number ++ newline :: (timingLine p ++ newline :: trimEnd p.text) =
        (decimal p.number ++ newline :: (timingLine p ++ [newline])) ++ trimEnd p.text := by simp
    rw [if_neg hnil, hlast, List.getLast?_append_of_ne_nil _ hnil] at hc
    exact trimEnd_getLast? hc

theorem splitOn_toText (h : ∀ q ∈ paragraphs, Written d q) (hp : Written d p) :
    (toText (paragraphs ++ [p])).splitOn newline =
      paragraphs.flatMap blockLines ++ (cueLines (trimmedCue p) ++ [[], []]) := by
  obtain ⟨blank, hcue, hblank⟩ := lastText_append p
  have htext : (paragraphs ++ [p]).flatMap cueText =
      paragraphs.flatMap cueText ++ lastText p ++ blank := by
    rw [List.flatMap_append, List.flatMap_singleton, hcue, append_assoc]
  have hne : lastText p ≠ [] := by simp [lastText]
  have hhead : ∀ c, (paragraphs.flatMap cueText ++ lastText p).head? = some c →
      isWhitespace c = false := by
    have hnumber : ∀ (q : Paragraph) (s : Text) (c : Char),
        (decimal q.number ++ s).head? = some c → isWhitespace c = false := fun q s c hc => by
      rw [List.head?_append_of_ne_nil _ (decimal_ne_nil _)] at hc
      exact not_isWhitespace_of_mem_decimal (mem_of_head? hc)
    cases paragraphs with
    | nil => exact hnumber p _
    | cons q paragraphs =>
      intro c hc
      rw [flatMap_cons, cueText, append_assoc, append_assoc] at hc
      exact hnumber q _ c hc
  have hlast : ∀ c, (paragraphs.flatMap cueText ++ lastText p).getLast? = some c →
      isWhitespace c = false := fun c hc => by
    rw [List.getLast?_append_of_ne_nil _ hne] at hc
    exact hp.lastText_getLast? hc
  rw [toText, htext, trimChars_append hblank hhead hlast, append_assoc,
    splitOn_flatMap_cueText h]
  refine congrArg _ ?_
  rw [lastText, cueLines, bodyLines]
  change _ = decimal p.number :: timingLine p :: ((if trimEnd p.text = [] then [] else _) ++ _)
  split
  · rw [append_nil, append_assoc, cons_append]
    exact splitOn_header hp [newline]
  · rw [append_assoc, cons_append, append_assoc, cons_append, splitOn_header hp,
      List.splitOn_append_cons_self]
    rfl

/-- **The cues that are written are loaded again**, the last one without the white space at the end
of its text. -/
theorem load_toText (h : ∀ p ∈ paragraphs, Written d p) :
    load d ((toText paragraphs).splitOn newline) =
      some ⟨(paragraphs.modifyLast trimmedCue).map Paragraph.plain, 0⟩ := by
  induction paragraphs using List.reverseRecOn with
  | nil => rfl
  | append_singleton paragraphs p _ =>
    have hp : Written d (trimmedCue p) := (h p (by simp)).trimmed
    have hparagraphs : ∀ q ∈ paragraphs, Written d q := fun q hq => h q (by simp [hq])
    have hends : Ends d (cueLines (trimmedCue p) ++ [[], []]) := hp.ends _
    have hblanks : ∀ line ∈ ([[], []] : List Text), isBlank line = true := by
      simp [isBlank, trimChars]
    rw [load, splitOn_toText hparagraphs (h p (by simp)), loadFrom_blockLines hparagraphs hends,
      ← append_nil (cueLines (trimmedCue p) ++ [[], []]),
      loadFrom_cueLines hp hblanks (.inl rfl), List.modifyLast_concat]
    simp [loadFrom, Loaded.add]

def sampleCue (text : String) : Paragraph :=
  ⟨7, text.toList, .ofMilliseconds 1500, .ofMilliseconds 359999999, none⟩

theorem sampleCue_written {text : String}
    (htext : ∀ line ∈ bodyLines text.toList, isBlank line = false ∧
      isTiming asciiDigits line = false) : Written asciiDigits (sampleCue text) :=
  ⟨(by decide : -2 ^ 31 ≤ (7 : ℤ) ∧ (7 : ℤ) < 2 ^ 31), ⟨1500, by decide, rfl⟩,
    ⟨359999999, le_rfl, rfl⟩, htext⟩

theorem load_toText_numbers :
    load asciiDigits ((toText [sampleCue "5\n6", sampleCue ""]).splitOn newline) =
      some ⟨[sampleCue "5\n6", sampleCue ""], 0⟩ := by
  have h : ∀ p ∈ [sampleCue "5\n6", sampleCue ""], Written asciiDigits p := by
    intro p hp
    rcases List.mem_cons.mp hp with rfl | hp
    · exact sampleCue_written (by decide +kernel)
    · rw [mem_singleton.mp hp]
      exact sampleCue_written (by decide +kernel)
  exact (load_toText h).trans rfl

/-- The white space at the end of the last cue's text is lost. -/
theorem last_trimmed : Written asciiDigits (sampleCue "a ") ∧
    load asciiDigits ((toText [sampleCue "a "]).splitOn newline) = some ⟨[sampleCue "a"], 0⟩ ∧
    sampleCue "a" ≠ sampleCue "a " :=
  ⟨sampleCue_written (by decide +kernel), by decide +kernel, by decide +kernel⟩

end Ferrofin.Subtitles.Srt
