import Ferrofin.Lib.KeyedMap
import Ferrofin.Streams.LineReader
import Ferrofin.Util.Search

/-!
# M3U playlists

A playlist names each channel in an `#EXTINF:` line and gives its URL in the next line that is no
directive (`M3uParser`).  Its bytes come in chunks; the lines are folded into the channels and the
`#EXTINF` text that waits for its URL.

`channels_aligned`: whatever the playlist, its channels are the pairs of an `#EXTINF` line with a
text and the URL line it waits for, where that is a valid one, in their order and each once; so
what an `#EXTINF` says is never said of the URL of another, and every URL is one that a channel may
play from.

`urlParses` stands for `reqwest::Url::parse`.
-/

namespace Ferrofin.LiveTv

open Lib Util Streams

abbrev Text := List Char

structure M3uChannel where
  id : Text
  name : Text
  number : Option Text
  logo : Option Text
  group : Option Text
  isRadio : Bool
  url : Text

/-! ### An entry -/

/-- What `[a-z0-9\-_]` matches when case is ignored: the long s and the sign of the kelvin fold
to letters. -/
def isKeyChar (c : Char) : Bool :=
  c.isAlphanum || c == '-' || c == '_' || c.toNat == 0x17F || c.toNat == 0x212A

def keyValueAt (s : Text) : Option (Text × Text) :=
  match s.dropWhile isKeyChar with
  | '=' :: '"' :: rest =>
    let key := s.takeWhile isKeyChar
    let value := rest.takeWhile (· != '"')
    if key ≠ [] ∧ value ≠ [] ∧ rest.dropWhile (· != '"') ≠ [] then some (key, value) else none
  | _ => none

/-- The matches of `KEY_VALUE` behind the first `skip` characters, from left to right. -/
def capturesFrom : (skip : Nat) → Text → List (Text × Text)
  | _, [] => []
  | 0, c :: s =>
    match keyValueAt (c :: s) with
    | some (key, value) => (key, value) :: capturesFrom (key.length + value.length + 2) s
    | none => capturesFrom 0 s
  | skip + 1, _ :: s => capturesFrom skip s

/-- The text that a match of `KEY_VALUE` covers. -/
def matched (found : Text × Text) : Text := found.1 ++ '=' :: '"' :: found.2 ++ ['"']

def parseAttributes (line : Text) : KeyedMap Text Text × Text :=
  (capturesFrom 0 line).foldl
    (fun (attrs, remaining) found =>
      (attrs.insert (found.1.map Char.toLower) found.2, removeAll (matched found) remaining))
    (∅, line)

def isDouble (value : Text) : Bool := isFloat (trimChars value)

def isValidChannelNumber (value : Text) : Bool :=
  trimChars value != [] && value != ['-', '1'] && value != ['0'] && isDouble value

def satipSplit (text : Text) : Option (Text × Text) :=
  (splitOnce [' '] text).bind fun (front, back) =>
    let number := trimMatches (fun c => c == ' ' || c == '.') front
    if front ≠ [] ∧ isDouble number then
      some (number, trimMatches (fun c => c == ' ' || c == '-') back)
    else none

/-- `Path.GetFileNameWithoutExtension` of a URL, as `channel_number` takes it. -/
def fileStemOf (url : Text) : Text :=
  let file := (url.splitOn '/').getLastD url
  if '.' ∈ file then (file.reverse.dropWhile (· != '.')).tail.reverse else file

def channelNumber (display : Option Text) (attrs : KeyedMap Text Text) (url : Text) :
    Option Text :=
  let numeric (key : String) := (attrs.lookup key.toList).filter isDouble
  let number := numeric "tvg-chno"
  let number :=
    if number.any isValidChannelNumber then number
    else
      let number :=
        if (attrs.lookup "tvg-id".toList).isSome then
          ((numeric "tvg-id").or (numeric "channel-id")).or number
        else number
      if number.all (trimChars · == []) then (display.bind satipSplit).map Prod.fst else number
  match number.filter isValidChannelNumber with
  | some number => some (trimChars number)
  | none => if isValidChannelNumber (fileStemOf url) then some (fileStemOf url) else none

def parseExtinf (extinf url : Text) : M3uChannel :=
  let (attrs, remaining) := parseAttributes extinf
  let afterComma := (splitOnce [','] remaining).map fun (_, text) => trimChars text
  let display := ((afterComma.filter fun _ =>
      1 < ((remaining.splitOn ',').filter (· ≠ [])).length).map
    (trimMatches fun c => c == ',' || isWhitespace c)).filter (· ≠ [])
  let attr (key : String) := (attrs.lookup key.toList).filter (trimChars · ≠ [])
  { id := ((((attr "tvg-id").or (attr "channel-id")).or (attr "cuid")).or
      (afterComma.filter (· ≠ []))).or (attr "tvg-name") |>.getD []
    name := ((((display.map fun text => ((satipSplit text).map Prod.snd).getD text).filter
      (trimChars · ≠ [])).or (attr "tvg-name")).or (attr "tvg-id")).getD []
    number := channelNumber display attrs url
    logo := (attr "tvg-logo").or (attr "logo")
    group := attr "group-title"
    isRadio := (attrs.lookup "radio".toList).any (sameIgnoreAsciiCase · "true".toList)
    url := url }

/-! ### The lines -/

/-- `EXTINF`. -/
def extinfPrefix : Text := "#EXTINF:".toList

def allowedSchemes : List String := ["http", "https", "rtsp", "rtp", "udp"]

variable (urlParses : Text → Bool)

def isValidChannelUrl (url : Text) : Bool :=
  ((splitOnce "://".toList url).any fun (scheme, _) =>
      allowedSchemes.any fun allowed => sameIgnoreAsciiCase scheme allowed.toList) &&
    !url.any (fun c => c == '"' || c == '\\') && !url.any isControl && urlParses url

structure ParseState where
  channels : List M3uChannel := []
  pending : Option Text := none
  skipped : Nat := 0

/-- What an `#EXTINF` line says, which may be nothing. -/
def extinfText (line : Text) : Option Text :=
  if sameIgnoreAsciiCase (line.take extinfPrefix.length) extinfPrefix then
    some (trimChars (line.drop extinfPrefix.length))
  else none

def ParseState.pushLine (state : ParseState) (raw : Text) : ParseState :=
  let line := trimChars raw
  if line = [] then state
  else match extinfText line with
    | some rest => { state with pending := (some rest).filter (· ≠ []) }
    | none =>
      if line.head? = some '#' then state
      else match state.pending with
        | some extinf =>
          if isValidChannelUrl urlParses line then
            { state with
              channels := state.channels ++ [parseExtinf extinf line]
              pending := none }
          else { state with pending := none, skipped := state.skipped + 1 }
        | none => state

structure M3uParser where
  lines : LineReader := LineReader.new
  state : ParseState := {}

def M3uParser.push (parser : M3uParser) (chunk : List UInt8) : M3uParser :=
  let (reader, lines) := parser.lines.push chunk
  { lines := reader, state := lines.foldl (·.pushLine urlParses ·) parser.state }

def M3uParser.finish (parser : M3uParser) : List M3uChannel :=
  (parser.lines.finish.foldl (·.pushLine urlParses ·) parser.state).channels

/-- The channels of a playlist whose bytes come in chunks. -/
def parseM3u (chunks : List (List UInt8)) : List M3uChannel :=
  (chunks.foldl (·.push urlParses ·) ({} : M3uParser)).finish urlParses

/-! ### Entries of a playlist -/

structure IsStreamUrl (url : Text) : Prop where
  scheme : ∃ front rest, url = front ++ "://".toList ++ rest ∧
    ∃ allowed ∈ allowedSchemes, sameIgnoreAsciiCase front allowed.toList = true
  plain : ∀ c ∈ url, c ≠ '"' ∧ c ≠ '\\' ∧ isControl c = false
  parses : urlParses url = true

/-- A line that no entry is made of: a blank one, or a directive that is no `#EXTINF`. -/
def IsSkipped (raw : Text) : Prop :=
  trimChars raw = [] ∨ extinfText (trimChars raw) = none ∧ (trimChars raw).head? = some '#'

structure IsUrlLine (raw url : Text) : Prop where
  text : trimChars raw = url
  ne_nil : url ≠ []
  noExtinf : extinfText url = none
  noDirective : url.head? ≠ some '#'

/-- The `#EXTINF` line `i`, which says `extinf`, still waits for its URL behind these lines. -/
structure Awaiting (lines : List Text) (i : ℕ) (extinf : Text) : Prop where
  line : ∃ raw, lines[i]? = some raw ∧ extinfText (trimChars raw) = some extinf
  text : extinf ≠ []
  skipped : ∀ j raw, i < j → lines[j]? = some raw → IsSkipped raw

structure Entry where
  extinfLine : ℕ
  urlLine : ℕ
  extinf : Text
  url : Text

def Entry.channel (e : Entry) : M3uChannel := parseExtinf e.extinf e.url

structure IsEntry (lines : List Text) (e : Entry) : Prop where
  awaiting : Awaiting (lines.take e.urlLine) e.extinfLine e.extinf
  line : ∃ raw, lines[e.urlLine]? = some raw ∧ IsUrlLine raw e.url
  valid : isValidChannelUrl urlParses e.url = true

variable {urlParses} {lines : List Text} {raw url extinf : Text} {i : ℕ} {e : Entry}
  {state : ParseState}

theorem isStreamUrl (h : isValidChannelUrl urlParses url = true) : IsStreamUrl urlParses url := by
  simp only [isValidChannelUrl, Bool.and_eq_true, Bool.not_eq_true', List.any_eq_false,
    Bool.or_eq_true, beq_iff_eq, not_or] at h
  obtain ⟨⟨⟨hscheme, hquotes⟩, hcontrol⟩, hparses⟩ := h
  rcases hsplit : splitOnce "://".toList url with _ | ⟨front, rest⟩
  · rw [hsplit] at hscheme
    cases hscheme
  rw [hsplit, Option.any_some] at hscheme
  obtain ⟨allowed, hmem, hsame⟩ := List.any_eq_true.mp hscheme
  refine ⟨⟨front, rest, splitOnce_eq hsplit, allowed, hmem, hsame⟩, fun c hc => ?_, hparses⟩
  exact ⟨(hquotes c hc).1, (hquotes c hc).2, by simpa using hcontrol c hc⟩

@[simp] theorem channel_url (e : Entry) : e.channel.url = e.url := rfl

theorem extinfText_nil : extinfText [] = none := by decide

theorem IsSkipped.extinfText_eq (h : IsSkipped raw) : extinfText (trimChars raw) = none := by
  rcases h with hnil | ⟨hnone, -⟩
  · rw [hnil, extinfText_nil]
  · exact hnone

theorem IsUrlLine.not_skipped (h : IsUrlLine raw url) : ¬ IsSkipped raw := by
  rintro (hnil | ⟨-, hdirective⟩)
  · exact h.ne_nil (h.text.symm.trans hnil)
  · exact h.noDirective (by rw [← h.text, hdirective])

theorem skipped_or (raw : Text) :
    IsSkipped raw ∨ (∃ rest, trimChars raw ≠ [] ∧ extinfText (trimChars raw) = some rest) ∨
      IsUrlLine raw (trimChars raw) := by
  by_cases hnil : trimChars raw = []
  · exact .inl (.inl hnil)
  rcases hext : extinfText (trimChars raw) with _ | rest
  · by_cases hdir : (trimChars raw).head? = some '#'
    · exact .inl (.inr ⟨hext, hdir⟩)
    · exact .inr (.inr ⟨rfl, hnil, hext, hdir⟩)
  · exact .inr (.inl ⟨rest, hnil, rfl⟩)

/-! ### What waits behind one more line -/

/-- Only the last `#EXTINF` line waits. -/
theorem Awaiting.unique {i' : ℕ} {extinf' : Text} (h : Awaiting lines i extinf)
    (h' : Awaiting lines i' extinf') : i = i' ∧ extinf = extinf' := by
  obtain ⟨raw, hraw, htext⟩ := h.line
  obtain ⟨raw', hraw', htext'⟩ := h'.line
  have hle : i' ≤ i := by
    by_contra hlt
    have hnone := (h.skipped i' raw' (by omega) hraw').extinfText_eq
    rw [htext'] at hnone
    cases hnone
  have hge : i ≤ i' := by
    by_contra hlt
    have hnone := (h'.skipped i raw (by omega) hraw).extinfText_eq
    rw [htext] at hnone
    cases hnone
  obtain rfl : i = i' := by omega
  obtain rfl : raw = raw' := Option.some.inj (hraw.symm.trans hraw')
  exact ⟨rfl, Option.some.inj (htext.symm.trans htext')⟩

theorem Awaiting.lt_length (h : Awaiting lines i extinf) : i < lines.length := by
  obtain ⟨raw, hraw, -⟩ := h.line
  exact (List.getElem?_eq_some_iff.mp hraw).1

theorem awaiting_concat : Awaiting (lines ++ [raw]) i extinf ↔
    Awaiting lines i extinf ∧ IsSkipped raw ∨
      i = lines.length ∧ extinfText (trimChars raw) = some extinf ∧ extinf ≠ [] := by
  constructor
  · intro h
    obtain ⟨line, hline, htext⟩ := h.line
    rcases Nat.lt_or_ge i lines.length with hlt | hge
    · rw [List.getElem?_append_left hlt] at hline
      refine .inl ⟨⟨⟨line, hline, htext⟩, h.text, fun j raw' hj hraw' => ?_⟩,
        h.skipped lines.length raw hlt List.getElem?_concat_length⟩
      have hjlt : j < lines.length := (List.getElem?_eq_some_iff.mp hraw').1
      exact h.skipped j raw' hj (by rw [List.getElem?_append_left hjlt, hraw'])
    · have hi : i < lines.length + 1 := by simpa using h.lt_length
      obtain rfl : i = lines.length := by omega
      rw [List.getElem?_concat_length] at hline
      cases hline
      exact .inr ⟨rfl, htext, h.text⟩
  · rintro (⟨h, hskip⟩ | ⟨rfl, htext, hne⟩)
    · obtain ⟨line, hline, htext⟩ := h.line
      refine ⟨⟨line, by rw [List.getElem?_append_left h.lt_length, hline], htext⟩, h.text,
        fun j raw' hj hraw' => ?_⟩
      rcases Nat.lt_or_ge j lines.length with hlt | hge
      · exact h.skipped j raw' hj (by rwa [List.getElem?_append_left hlt] at hraw')
      · have hj' : j < lines.length + 1 := by
          simpa using (List.getElem?_eq_some_iff.mp hraw').1
        obtain rfl : j = lines.length := by omega
        rw [List.getElem?_concat_length] at hraw'
        cases hraw'
        exact hskip
    · refine ⟨⟨raw, List.getElem?_concat_length, htext⟩, hne, fun j raw' hj hraw' => ?_⟩
      have hj' : j < lines.length + 1 := by simpa using (List.getElem?_eq_some_iff.mp hraw').1
      omega

theorem isEntry_concat : IsEntry urlParses (lines ++ [raw]) e ↔
    IsEntry urlParses lines e ∨ e.urlLine = lines.length ∧
      Awaiting lines e.extinfLine e.extinf ∧ IsUrlLine raw e.url ∧
      isValidChannelUrl urlParses e.url = true := by
  constructor
  · intro h
    obtain ⟨line, hline, hurl⟩ := h.line
    rcases Nat.lt_or_ge e.urlLine lines.length with hlt | hge
    · rw [List.getElem?_append_left hlt] at hline
      refine .inl ⟨?_, ⟨line, hline, hurl⟩, h.valid⟩
      have hawait := h.awaiting
      rwa [List.take_append_of_le_length hlt.le] at hawait
    · have hi : e.urlLine < lines.length + 1 := by
        simpa using (List.getElem?_eq_some_iff.mp hline).1
      have heq : e.urlLine = lines.length := by omega
      rw [heq, List.getElem?_concat_length] at hline
      cases hline
      have hawait := h.awaiting
      rw [heq, List.take_left] at hawait
      exact .inr ⟨heq, hawait, hurl, h.valid⟩
  · rintro (h | ⟨heq, hawait, hurl, hvalid⟩)
    · obtain ⟨line, hline, hurl⟩ := h.line
      have hlt : e.urlLine < lines.length := (List.getElem?_eq_some_iff.mp hline).1
      refine ⟨?_, ⟨line, by rw [List.getElem?_append_left hlt, hline], hurl⟩, h.valid⟩
      rw [List.take_append_of_le_length hlt.le]
      exact h.awaiting
    · refine ⟨by rwa [heq, List.take_left], ⟨raw, ?_, hurl⟩, hvalid⟩
      rw [heq, List.getElem?_concat_length]

/-! ### Reading the lines -/

structure Reads (urlParses : Text → Bool) (lines : List Text) (state : ParseState) : Prop where
  pending : ∀ extinf, state.pending = some extinf ↔ ∃ i, Awaiting lines i extinf
  channels : ∃ entries : List Entry, state.channels = entries.map Entry.channel ∧
    entries.Pairwise (fun e e' => e.urlLine < e'.extinfLine) ∧
    ∀ e, e ∈ entries ↔ IsEntry urlParses lines e

variable (urlParses) in
theorem reads_nil : Reads urlParses [] {} where
  pending extinf := by
    constructor
    · nofun
    · rintro ⟨i, h⟩
      exact absurd h.lt_length (Nat.not_lt_zero i)
  channels := by
    refine ⟨[], rfl, .nil, fun e => ⟨nofun, fun h => ?_⟩⟩
    obtain ⟨raw, hraw, -⟩ := h.line
    cases hraw

theorem pushLine_skipped (h : IsSkipped raw) : state.pushLine urlParses raw = state := by
  rw [ParseState.pushLine]
  by_cases hnil : trimChars raw = []
  · rw [if_pos hnil]
  · obtain ⟨hnone, hdir⟩ := h.resolve_left hnil
    rw [if_neg hnil, hnone]
    exact if_pos hdir

theorem pushLine_extinf (hne : trimChars raw ≠ []) {rest : Text}
    (h : extinfText (trimChars raw) = some rest) :
    state.pushLine urlParses raw = { state with pending := (some rest).filter (· ≠ []) } := by
  rw [ParseState.pushLine, if_neg hne, h]

theorem pushLine_url (h : IsUrlLine raw url) : state.pushLine urlParses raw =
    match state.pending with
    | some extinf =>
      if isValidChannelUrl urlParses url then
        { state with
          channels := state.channels ++ [parseExtinf extinf url]
          pending := none }
      else { state with pending := none, skipped := state.skipped + 1 }
    | none => state := by
  obtain ⟨rfl, hne, hext, hdir⟩ := h
  rw [ParseState.pushLine, if_neg hne, hext]
  exact if_neg hdir

theorem Reads.channels_of_not_url (h : Reads urlParses lines state)
    (hraw : ∀ url, ¬ IsUrlLine raw url) :
    ∃ entries : List Entry, state.channels = entries.map Entry.channel ∧
      entries.Pairwise (fun e e' => e.urlLine < e'.extinfLine) ∧
      ∀ e, e ∈ entries ↔ IsEntry urlParses (lines ++ [raw]) e := by
  obtain ⟨entries, hchannels, hordered, hmem⟩ := h.channels
  refine ⟨entries, hchannels, hordered, fun e => ?_⟩
  rw [hmem, isEntry_concat]
  exact ⟨.inl, fun h => h.resolve_right fun ⟨_, _, hurl, _⟩ => hraw _ hurl⟩

theorem Reads.channels_of_url (h : Reads urlParses lines state) (hurl : IsUrlLine raw url)
    (hvalid : isValidChannelUrl urlParses url = true) (hawait : Awaiting lines i extinf) :
    ∃ entries : List Entry,
      state.channels ++ [parseExtinf extinf url] = entries.map Entry.channel ∧
      entries.Pairwise (fun e e' => e.urlLine < e'.extinfLine) ∧
      ∀ e, e ∈ entries ↔ IsEntry urlParses (lines ++ [raw]) e := by
  obtain ⟨entries, hchannels, hordered, hmem⟩ := h.channels
  refine ⟨entries ++ [⟨i, lines.length, extinf, url⟩], ?_, ?_, fun e => ?_⟩
  · rw [hchannels, List.map_append]
    rfl
  · refine List.pairwise_append.mpr ⟨hordered, List.pairwise_singleton _ _, fun e he e' he' => ?_⟩
    rw [List.mem_singleton] at he'
    subst he'
    obtain ⟨line, hline, hurl'⟩ := ((hmem e).mp he).line
    -- the URL line of an earlier entry is not skipped, so it is before the one that waits
    by_contra hle
    obtain ⟨raw', hraw', htext⟩ := hawait.line
    rcases Nat.lt_or_ge i e.urlLine with hlt | hge
    · exact hurl'.not_skipped (hawait.skipped _ _ hlt hline)
    · obtain rfl : i = e.urlLine := by simp only [not_lt] at hle; omega
      obtain rfl : raw' = line := Option.some.inj (hraw'.symm.trans hline)
      rw [hurl'.text, hurl'.noExtinf] at htext
      cases htext
  · rw [List.mem_append, hmem, isEntry_concat, List.mem_singleton]
    refine or_congr_right ⟨?_, ?_⟩
    · rintro rfl
      exact ⟨rfl, hawait, hurl, hvalid⟩
    · rintro ⟨hline, hawait', hurl', -⟩
      obtain ⟨hi, hextinf⟩ := hawait'.unique hawait
      obtain ⟨extinfLine, urlLine, extinf', url'⟩ := e
      cases hline
      cases hi
      cases hextinf
      rw [show url' = url from hurl'.text.symm.trans hurl.text]

theorem Reads.channels_of_no_entry (h : Reads urlParses lines state) (hurl : IsUrlLine raw url)
    (hno : isValidChannelUrl urlParses url = false ∨ ∀ i extinf, ¬ Awaiting lines i extinf) :
    ∃ entries : List Entry, state.channels = entries.map Entry.channel ∧
      entries.Pairwise (fun e e' => e.urlLine < e'.extinfLine) ∧
      ∀ e, e ∈ entries ↔ IsEntry urlParses (lines ++ [raw]) e := by
  obtain ⟨entries, hchannels, hordered, hmem⟩ := h.channels
  refine ⟨entries, hchannels, hordered, fun e => ?_⟩
  rw [hmem, isEntry_concat]
  refine ⟨.inl, fun h => h.resolve_right ?_⟩
  rintro ⟨-, hawait, hurl', hvalid⟩
  rcases hno with hinvalid | hnone
  · rw [← hurl'.text, hurl.text, hinvalid] at hvalid
    cases hvalid
  · exact hnone _ _ hawait

theorem not_awaiting_url (hurl : IsUrlLine raw url) : ¬ Awaiting (lines ++ [raw]) i extinf := by
  rw [awaiting_concat]
  rintro (⟨-, hskip⟩ | ⟨-, htext, -⟩)
  · exact hurl.not_skipped hskip
  · rw [hurl.text, hurl.noExtinf] at htext
    cases htext

theorem Reads.pushLine (h : Reads urlParses lines state) (raw : Text) :
    Reads urlParses (lines ++ [raw]) (state.pushLine urlParses raw) := by
  rcases skipped_or raw with hskip | ⟨rest, hne, hrest⟩ | hurl
  · rw [pushLine_skipped hskip]
    refine ⟨fun extinf => ?_, h.channels_of_not_url fun url hurl => hurl.not_skipped hskip⟩
    simp [h.pending, awaiting_concat, hskip, hskip.extinfText_eq]
  · rw [pushLine_extinf hne hrest]
    have hnot : ∀ url, ¬ IsUrlLine raw url := by
      intro url hurl
      rw [hurl.text, hurl.noExtinf] at hrest
      cases hrest
    have hskip : ¬ IsSkipped raw := fun hskip => by
      rw [hskip.extinfText_eq] at hrest
      cases hrest
    refine ⟨fun extinf => ?_, h.channels_of_not_url hnot⟩
    simp only [awaiting_concat, hskip, hrest, and_false, false_or, exists_eq_left,
      Option.filter_eq_some_iff, decide_eq_true_eq]
  · rw [pushLine_url hurl]
    rcases hpending : state.pending with _ | extinf
    · have hnone : ∀ i extinf, ¬ Awaiting lines i extinf := by
        intro i extinf hawait
        have hsome := (h.pending extinf).mpr ⟨i, hawait⟩
        rw [hpending] at hsome
        cases hsome
      refine ⟨fun extinf => ?_, h.channels_of_no_entry hurl (.inr hnone)⟩
      simp only [hpending, reduceCtorEq, not_awaiting_url hurl, exists_false]
    · obtain ⟨i, hawait⟩ := (h.pending extinf).mp hpending
      dsimp only
      split
      · next hvalid =>
        refine ⟨fun extinf => ?_, h.channels_of_url hurl hvalid hawait⟩
        simp only [reduceCtorEq, not_awaiting_url hurl, exists_false]
      · next hvalid =>
        refine ⟨fun extinf => ?_, h.channels_of_no_entry hurl (.inl (by simpa using hvalid))⟩
        simp only [reduceCtorEq, not_awaiting_url hurl, exists_false]

theorem Reads.pushLines (h : Reads urlParses lines state) (raws : List Text) :
    Reads urlParses (lines ++ raws) (raws.foldl (·.pushLine urlParses ·) state) := by
  induction raws generalizing lines state with
  | nil => rwa [List.append_nil]
  | cons raw raws ih =>
    rw [List.foldl_cons, ← List.singleton_append, ← List.append_assoc]
    exact ih (h.pushLine raw)

theorem foldl_push (chunks : List (List UInt8)) (parser : M3uParser) :
    (chunks.foldl (·.push urlParses ·) parser).finish urlParses =
      ((parser.lines.readFrom chunks).foldl (·.pushLine urlParses ·) parser.state).channels := by
  induction chunks generalizing parser with
  | nil => rfl
  | cons chunk chunks ih =>
    rw [List.foldl_cons, ih, LineReader.readFrom, List.foldl_append]
    rfl

theorem parseM3u_eq (chunks : List (List UInt8)) : parseM3u urlParses chunks =
    ((charTerminators.lines (decodeStreamText chunks.flatten)).foldl (·.pushLine urlParses ·)
      ({} : ParseState)).channels := by
  rw [parseM3u, foldl_push, ← readLines_eq]
  rfl

/-- The channels of a playlist play from URLs that are allowed, and are its entries: in their
order, each once, and each made of the one `#EXTINF` line that its URL line follows. -/
theorem channels_aligned (urlParses : Text → Bool) (chunks : List (List UInt8)) :
    (∀ channel ∈ parseM3u urlParses chunks, IsStreamUrl urlParses channel.url) ∧
      ∃ entries : List Entry, parseM3u urlParses chunks = entries.map Entry.channel ∧
        entries.Pairwise (fun e e' => e.urlLine < e'.extinfLine) ∧
        ∀ e, e ∈ entries ↔
          IsEntry urlParses (charTerminators.lines (decodeStreamText chunks.flatten)) e := by
  have hreads := (reads_nil urlParses).pushLines
    (charTerminators.lines (decodeStreamText chunks.flatten))
  obtain ⟨entries, hchannels, hordered, hmem⟩ := hreads.channels
  rw [List.nil_append] at hmem
  rw [parseM3u_eq, hchannels]
  refine ⟨fun channel hchannel => ?_, entries, rfl, hordered, hmem⟩
  obtain ⟨e, he, rfl⟩ := List.mem_map.mp hchannel
  exact isStreamUrl ((hmem e).mp he).valid

/-- An `#EXTINF` line without a text waits for no URL, and behind a rejected URL none waits. -/
theorem unpaired_urls :
    ∃ (urlParses : Text → Bool) (nameless rejected : List UInt8),
      charTerminators.lines (decodeStreamText nameless) =
        ["#EXTINF:".toList, "http://a".toList] ∧
      charTerminators.lines (decodeStreamText rejected) =
        ["#EXTINF:1,A".toList, "/a".toList, "http://a".toList] ∧
      isValidChannelUrl urlParses "http://a".toList = true ∧
      isValidChannelUrl urlParses "/a".toList = false ∧
      (parseM3u urlParses [nameless]).length = 0 ∧ (parseM3u urlParses [rejected]).length = 0 := by
  refine ⟨fun url => "http://".toList.isPrefixOf url, "#EXTINF:\nhttp://a".toUTF8.toList,
    "#EXTINF:1,A\n/a\nhttp://a".toUTF8.toList, ?_⟩
  rw [parseM3u_eq, parseM3u_eq]
  decide +kernel

end Ferrofin.LiveTv
