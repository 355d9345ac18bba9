import Ferrofin.Subtitles.Model
import Ferrofin.Util.Search

/-!
# The WebVTT writer

Each cue is a timing line and its text, which passes through four rewritings: override blocks are
removed, runs of line breaks collapsed, font colours turned into classes, and all `<`, `>` and `&`
escaped that belong to no tag and no character reference that WebVTT knows.

The colours of the runtime and the classes of characters are parameters.
-/

namespace Ferrofin.Subtitles.Vtt

open Util (replace trimChars trimEnd trimMatches)

structure Color where
  a : Fin 256
  r : Fin 256
  g : Fin 256
  b : Fin 256

/-- The colours and the characters that the writer asks for. -/
structure Runtime where
  /-- The digits of a pattern. -/
  digits : DigitClass
  /-- The letters of a character reference. -/
  isLetter : Char → Bool
  /-- A colour by its name. -/
  fromKnownName : Text → Option Color
  /-- The colour that an HTML value stands for. -/
  colorFromHtml : Text → Option Color

/-! ### Override blocks -/

/-- The text without its blocks in braces; a brace that nothing closes stays, with all behind it. -/
def removeBlocks : (inside : Bool) → Text → Text
  | _, [] => []
  | false, c :: s => if c = '{' ∧ '}' ∈ s then removeBlocks true s else c :: removeBlocks false s
  | true, c :: s => if c = '}' then removeBlocks false s else removeBlocks true s

/-- The text, without the blocks from the first override or karaoke block on. -/
def removeFromFirst : Text → Text
  | [] => []
  | c :: s =>
    if "\x7b\\".toList.isPrefixOf (c :: s) || "\x7bKara Effector".toList.isPrefixOf (c :: s) then
      removeBlocks false (c :: s)
    else c :: removeFromFirst s

/-- The text without override blocks, its `\N` and `\n` as line breaks and its `\h` as spaces. -/
def removeSsaTags (input : Text) : Text :=
  replace "\\h".toList [' '] (replace "\\N".toList [newline]
    (replace "\\n".toList [newline] (removeFromFirst input)))

/-! ### Line breaks -/

/-- The characters that stay, from the last one to the first. -/
def keptBreaks (hasCarriageReturn : Bool) : (adjacent : Bool) → Text → Text
  | _, [] => []
  | adjacent, c :: s =>
    if (hasCarriageReturn && c == '\r') || c == newline then
      if adjacent then keptBreaks hasCarriageReturn true s
      else c :: keptBreaks hasCarriageReturn (c == '\r' || (!hasCarriageReturn && c == newline)) s
    else c :: keptBreaks hasCarriageReturn false s

def removeRecursiveLineBreaks (input : Text) : Text :=
  (keptBreaks (input.contains '\r') false input.reverse).reverse

/-! ### Font colours -/

/-- The colour classes, in the order in which they are tried. -/
def colorClasses : List (Text × Fin 256 × Fin 256 × Fin 256) :=
  [("white".toList, 255, 255, 255), ("lime".toList, 0, 255, 0), ("cyan".toList, 0, 255, 255),
    ("red".toList, 255, 0, 0), ("yellow".toList, 255, 255, 0), ("magenta".toList, 255, 0, 255),
    ("blue".toList, 0, 0, 255), ("black".toList, 0, 0, 0)]

def near (a b : Fin 256) : Bool := decide ((a.val : ℤ) - b.val ≤ 25 ∧ (b.val : ℤ) - a.val ≤ 25)

variable (runtime : Runtime)

/-- The first colour class that is close to a colour tag. -/
def closeColor (tag : Text) : Option Text := do
  let color ← runtime.colorFromHtml ('#' :: trimMatches (fun c => c == '#' || c == '.') tag)
  (colorClasses.find? fun (_, r, g, b) =>
    near r color.r && near g color.g && near b color.b).map Prod.fst

def hexDigit (n : ℕ) : Char := "0123456789abcdef".toList.getD n '0'

def hexByte (n : Fin 256) : Text := [hexDigit (n / 16), hexDigit (n % 16)]

/-- `#rrggbbaa` -/
def colorToHexWithTransparency (color : Color) : Text :=
  '#' :: (hexByte color.r ++ hexByte color.g ++ hexByte color.b ++ hexByte color.a)

structure FontTag where
  opening : Text
  test : Char → Bool
  closing : Text

def FontTag.at (tag : FontTag) (s : Text) : Option (Text × Text) :=
  if tag.opening.isPrefixOf s then
    let rest := s.drop tag.opening.length
    if tag.closing.isPrefixOf (rest.dropWhile tag.test) then
      some (rest.takeWhile tag.test, (rest.dropWhile tag.test).drop tag.closing.length)
    else none
  else none

/-- What is before the first tag, its value and what is behind it. -/
def FontTag.find (tag : FontTag) : Text → Option (Text × Text × Text)
  | [] => none
  | c :: s =>
    match tag.at (c :: s) with
    | some (value, back) => some ([], value, back)
    | none => (tag.find s).map fun (front, value, back) => (c :: front, value, back)

/-- The text with its tags replaced one after the other, until none is left or one is not known.
Each time the text gets shorter, so that `fuel` of its length is enough. -/
def FontTag.replaceAll (tag : FontTag) (class' : Text → Option Text) : (fuel : ℕ) → Text → Text
  | 0, s => s
  | fuel + 1, s =>
    match tag.find s with
    | none => s
    | some (front, value, back) =>
      match class' value with
      | none => s
      | some new => tag.replaceAll class' fuel (front ++ new ++ back)

def trimQuotes (s : Text) : Text := trimMatches (· == '\'') (trimMatches (· == '"') s)

/-- `<c.name>` -/
def classTag (name : Text) : Text := trimQuotes ("<c.".toList ++ name ++ ['>'])

def isLower (c : Char) : Bool := 'a' ≤ c && c ≤ 'z'

def isHex (c : Char) : Bool :=
  ('A' ≤ c && c ≤ 'F') || ('a' ≤ c && c ≤ 'f') || runtime.digits.isDigit c

def htmlColor : FontTag := ⟨"<font color=\"".toList, isLower, "\">".toList⟩

def htmlColor2 : FontTag := ⟨"<font color=".toList, isLower, ">".toList⟩

def htmlColor3 : FontTag := ⟨"<font color=\"#".toList, isHex runtime, "\">".toList⟩

def htmlColor4 : FontTag := ⟨"<font color=\"".toList, Char.isAlpha, "\">".toList⟩

/-- The class of a hexadecimal colour: the closest one, or one of its own. -/
def hexClass (tag : Text) : Text :=
  match closeColor runtime tag with
  | some close => classTag close
  | none => classTag ("color".toList ++ tag)

def namedClass (name : Text) : Option Text :=
  (runtime.fromKnownName name).map fun color =>
    let tag := '.' :: (colorToHexWithTransparency color).dropWhile (· == '#')
    match closeColor runtime tag with
    | some close => classTag close
    | none => trimQuotes ("<c".toList ++ tag ++ ['>'])

/-- The text with each kind of font tag replaced once. -/
def colorPass (s : Text) : Text :=
  let s := htmlColor.replaceAll (fun value => some (classTag value)) s.length s
  let s := htmlColor2.replaceAll (fun value => some (classTag value)) s.length s
  let s := (htmlColor3 runtime).replaceAll (fun tag => some (hexClass runtime tag)) s.length s
  htmlColor4.replaceAll (namedClass runtime) s.length s

def colorHtmlToWebvtt (text : Text) : Text :=
  colorPass runtime (colorPass runtime (replace "</font>".toList "</c>".toList text))

/-! ### Escaping -/

/-- Whether the escaping is in a tag that it keeps, and how many characters it keeps as they are. -/
structure Scanner where
  tagOn : Bool
  keep : ℕ

/-- A text starts with a prefix, in any case.  Of the characters beyond ASCII only the Kelvin sign
has a letter of ASCII as its lower case, and no prefix has a `k`. -/
def startsWith (pattern : String) (s : Text) : Bool :=
  (pattern.toList.map Char.toLower).isPrefixOf (s.map Char.toLower)

def isReference (s : Text) : Bool :=
  let letter i := (s[i]?).any runtime.isLetter
  ["&lrm;", "&amp;", "&lt;", "&gt;"].any (startsWith · s) ||
    (s[3]? == some ';' && letter 2 && letter 1) ||
    (s[4]? == some ';' && letter 3 && letter 2 && letter 1)

/-- What is written for a character that the rest of the text follows. -/
def Scanner.step (state : Scanner) (c : Char) (s : Text) : Text × Scanner :=
  if 0 < state.keep then ([c], { state with keep := state.keep - 1 })
  else if c = '<' then
    if ["<i>", "<b>", "<u>", "<c>", "<v>"].any (startsWith · (c :: s)) then
      ([c], { state with keep := 2 })
    else if startsWith "</" (c :: s) then ([c], ⟨true, 1⟩)
    else if ["<ruby", "<font", "<v.", "<v ", "<c.", "<c ", "<lang.", "<lang "].any
        (startsWith · (c :: s)) then
      ([c], { state with tagOn := true })
    else ("&lt;".toList, state)
  else if c = '>' then
    (if state.tagOn then ['>'] else "&gt;".toList, { state with tagOn := false })
  else if c = '&' then (if isReference runtime (c :: s) then ['&'] else "&amp;".toList, state)
  else ([c], state)

def escapeFrom (state : Scanner) : Text → Text
  | [] => []
  | c :: s => (state.step runtime c s).1 ++ escapeFrom (state.step runtime c s).2 s

/-- The text with what is no tag and no character reference escaped. -/
def escapeEncodeText (input : Text) : Text :=
  if input.any fun c => c == '<' || c == '>' || c == '&' then escapeFrom runtime ⟨false, 0⟩ input
  else input

/-! ### Writing -/

def cueSettings : List (Text × Text) :=
  [("\x7b\\an1".toList, "position:20%".toList), ("\x7b\\an2".toList, []),
    ("\x7b\\an3".toList, "position:80%".toList),
    ("\x7b\\an4".toList, "position:20% line:50%".toList),
    ("\x7b\\an5".toList, "line:50%".toList), ("\x7b\\an6".toList, "position:80% line:50%".toList),
    ("\x7b\\an7".toList, "position:20% line:20%".toList), ("\x7b\\an8".toList, "line:20%".toList),
    ("\x7b\\an9".toList, "position:80% line:20%".toList)]

/-- The cue settings for the alignment that the text starts with, behind a space. -/
def positionInfoFromAssTag (p : Paragraph) : Text :=
  let setting := (cueSettings.find? fun (tag, _) => tag.isPrefixOf p.text).elim [] Prod.snd
  trimEnd (' ' :: setting)

/-- `hh:mm:ss.fff` -/
def formatTimecode (time : TimeCode) : Text :=
  dotnetInt time.hours 2 ++ [':'] ++ dotnetInt time.minutes 2 ++ [':'] ++
    dotnetInt time.seconds 2 ++ ['.'] ++ dotnetInt time.milliseconds 3

def unescapedText (p : Paragraph) : Text :=
  colorHtmlToWebvtt runtime (removeRecursiveLineBreaks (removeSsaTags p.text))

def formatText (p : Paragraph) : Text := escapeEncodeText runtime (unescapedText runtime p)

structure Subtitle where
  paragraphs : List Paragraph
  header : Text

def Subtitle.hasHeader (subtitle : Subtitle) : Bool := "WEBVTT".toList.isPrefixOf subtitle.header

/-- The cue settings; a WebVTT source's cue has its region before them. -/
def position (webvttHeader : Bool) (p : Paragraph) : Text :=
  match p.region.filter (· ≠ []) with
  | some region =>
    if webvttHeader then
      trimEnd (replace "  ".toList " ".toList
        (" region:".toList ++ region ++ ' ' :: positionInfoFromAssTag p))
    else positionInfoFromAssTag p
  | none => positionInfoFromAssTag p

def timingLine (webvttHeader : Bool) (p : Paragraph) : Text :=
  formatTimecode p.startTime ++ " --> ".toList ++ formatTimecode p.endTime ++
    position webvttHeader p

def cueText (webvttHeader : Bool) (p : Paragraph) : Text :=
  timingLine webvttHeader p ++ newline :: (formatText runtime p ++ [newline, newline])

def headerText (subtitle : Subtitle) : Text :=
  if subtitle.hasHeader then trimChars subtitle.header else "WEBVTT".toList

def toText (subtitle : Subtitle) : Text :=
  trimChars (headerText subtitle ++ [newline, newline] ++
    subtitle.paragraphs.flatMap (cueText runtime subtitle.hasHeader))

end Ferrofin.Subtitles.Vtt
