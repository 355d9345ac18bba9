import Ferrofin.Streams.Decode

/-!
# Reading lines from a stream

`LineReader` is given a stream in chunks and calls back with each line they complete.  What it
keeps between chunks is the bytes it does not decode yet and the line so far.

`Fed` says what that is: the bytes behind the byte-order mark are those that were decoded and
those that are pending, cut where the encoding may be cut, and the line so far is what scanning
the decoded ones leaves.  Each chunk keeps this (`Fed.feed`), and so the lines of a whole stream do
not depend on its chunks: `readLines_eq`.
-/

namespace Ferrofin.Streams

open Lib Util
open List (append_assoc length_take map_append)

structure LineReader where
  encoding : Option TextEncoding
  pending : List UInt8
  line : List UInt8
  afterCr : Bool

namespace LineReader

def new : LineReader := ⟨none, [], [], false⟩

def isTerminator (b : UInt8) : Bool := b == 13 || b == 10

/-- What `split` does behind a terminator: a line feed behind a carriage return is part of it. -/
def pastTerminator (self : LineReader) (cr : Bool) (bytes : List UInt8) :
    LineReader × List UInt8 :=
  if cr then
    match bytes with
    | 10 :: rest => (self, rest)
    | [] => ({ self with afterCr := true }, [])
    | bytes => (self, bytes)
  else (self, bytes)

theorem length_pastTerminator (self : LineReader) (cr : Bool) (bytes : List UInt8) :
    (pastTerminator self cr bytes).2.length ≤ bytes.length := by
  unfold pastTerminator
  split
  · split <;> simp
  · exact Nat.le_refl _

/-- The loop of `split`. -/
def splitLoop (self : LineReader) (bytes : List UInt8) : LineReader × List (List Char) :=
  match hend : bytes.findIdx? isTerminator with
  | none => ({ self with line := self.line ++ bytes }, [])
  | some last =>
    let text := if self.line = [] then fromUtf8Lossy (bytes.take last)
      else fromUtf8Lossy (self.line ++ bytes.take last)
    let next := pastTerminator { self with line := [] } (bytes[last]? == some 13)
      (bytes.drop (last + 1))
    ((splitLoop next.1 next.2).1, text :: (splitLoop next.1 next.2).2)
termination_by bytes.length
decreasing_by
  all_goals
    have hlt : last < bytes.length := (List.findIdx?_eq_some_iff_getElem.mp hend).1
    have hle := length_pastTerminator { self with line := [] } (bytes[last]? == some 13)
      (bytes.drop (last + 1))
    rw [List.length_drop] at hle
    omega

def split (self : LineReader) (bytes : List UInt8) : LineReader × List (List Char) :=
  if self.afterCr then
    match bytes with
    | 10 :: rest => splitLoop { self with afterCr := false } rest
    | [] => splitLoop self []
    | bytes => splitLoop { self with afterCr := false } bytes
  else splitLoop self bytes

/-- How many of the pending bytes are decoded: whole units, and no first half of a pair at the
end. -/
def whole (encoding : TextEncoding) (pending : List UInt8) : Nat :=
  let width := if encoding = .utf16Le ∨ encoding = .utf16Be then 2 else 4
  let whole := pending.length - pending.length % width
  if width = 2 ∧ 2 ≤ whole then
    let unit := if encoding = .utf16Le then u16FromLeBytes else u16FromBeBytes
    if IsHigh (unit (pending.getD (whole - 2) 0) (pending.getD (whole - 1) 0)) then whole - 2
    else whole
  else whole

def feed (self : LineReader) (encoding : TextEncoding) (bytes : List UInt8) :
    LineReader × List (List Char) :=
  if encoding = .utf8 then split self bytes
  else
    let pending := self.pending ++ bytes
    let text := decode encoding (pending.take (whole encoding pending))
    split { self with pending := pending.drop (whole encoding pending) } (asBytes text)

def settle (self : LineReader) : TextEncoding × LineReader × List (List Char) :=
  let (encoding, bom) := detectEncoding self.pending
  (encoding, feed { self with pending := [], encoding := some encoding } encoding
    (self.pending.drop bom))

def push (self : LineReader) (chunk : List UInt8) : LineReader × List (List Char) :=
  match self.encoding with
  | some encoding => feed self encoding chunk
  | none =>
    let take := min (longestBom - self.pending.length) chunk.length
    let self := { self with pending := self.pending ++ chunk.take take }
    if self.pending.length < longestBom then (self, [])
    else
      let (encoding, self, lines) := settle self
      let (self, rest) := feed self encoding (chunk.drop take)
      (self, lines ++ rest)

def finish (self : LineReader) : List (List Char) :=
  let (encoding, self, lines) := match self.encoding with
    | some encoding => (encoding, self, [])
    | none => settle self
  let (self, rest) := if self.pending ≠ [] then
      split { self with pending := [] } (asBytes (decode encoding self.pending))
    else (self, [])
  lines ++ rest ++ if self.line ≠ [] then [fromUtf8Lossy self.line] else []

/-- The lines read from chunks, and those the end of the stream completes. -/
def readFrom (self : LineReader) : List (List UInt8) → List (List Char)
  | [] => finish self
  | chunk :: chunks => (push self chunk).2 ++ readFrom (push self chunk).1 chunks

end LineReader

def readLines (chunks : List (List UInt8)) : List (List Char) := LineReader.new.readFrom chunks

namespace LineReader

variable {self : LineReader} {bytes : List UInt8}

theorem isTerminator_iff (b : UInt8) :
    isTerminator b = true ↔ b = byteTerminators.cr ∨ b = byteTerminators.lf := by
  rw [isTerminator, Bool.or_eq_true, beq_iff_eq, beq_iff_eq]
  rfl

def scanned (self : LineReader) (bytes : List UInt8) : LineReader × List (List Char) :=
  let r := byteTerminators.scan self.line self.afterCr bytes
  ({ self with line := r.1.1, afterCr := r.1.2 }, r.2.map fromUtf8Lossy)

theorem scanned_pastTerminator (h : self.afterCr = false) (cr : Bool) (bytes : List UInt8) :
    scanned (pastTerminator self cr bytes).1 (pastTerminator self cr bytes).2 =
      scanned { self with afterCr := cr } bytes := by
  unfold pastTerminator
  split
  · next hcr =>
    subst hcr
    split
    · next rest =>
      have hskip := byteTerminators.scan_true (s := 10 :: rest) (by simp) self.line
      rw [scanned, scanned, h, hskip]
      rfl
    · rfl
    · next hlf hnil =>
      have hhead : bytes.head? ≠ some byteTerminators.lf := fun hhead => by
        obtain ⟨rest, rfl⟩ := List.head?_eq_some_iff.mp hhead
        exact hlf rest rfl
      rw [scanned, scanned, byteTerminators.scan_true hnil, Terminators.skip_of_head? hhead, h]
  · next hcr =>
    obtain rfl := Bool.eq_false_iff.mpr hcr
    rw [← h]

theorem afterCr_pastTerminator (h : self.afterCr = false) (cr : Bool) (bytes : List UInt8)
    (hafter : (pastTerminator self cr bytes).1.afterCr = true) :
    (pastTerminator self cr bytes).2 = [] := by
  unfold pastTerminator at hafter ⊢
  split at hafter
  · next hcr =>
    rw [if_pos hcr]
    split at hafter
    · rw [h] at hafter
      cases hafter
    · rfl
    · rw [h] at hafter
      cases hafter
  · rw [h] at hafter
    cases hafter

theorem splitLoop_eq (h : self.afterCr = true → bytes = []) :
    splitLoop self bytes = scanned self bytes := by
  fun_induction splitLoop self bytes with
  | case1 self bytes hnone =>
    have hfree : byteTerminators.Free bytes := by
      rw [List.findIdx?_eq_none_iff] at hnone
      constructor <;> intro hmem
      · exact absurd (hnone _ hmem) (by decide)
      · exact absurd (hnone _ hmem) (by decide)
    cases hafter : self.afterCr with
    | true =>
      rw [h hafter, scanned, Terminators.scan, List.append_nil, ← hafter]
      rfl
    | false =>
      rw [scanned, hafter, Terminators.scan_free hfree, ← hafter]
      rfl
  | case2 self bytes last hlast text next ih =>
    obtain ⟨hlt, hend, hbefore⟩ := List.findIdx?_eq_some_iff_getElem.mp hlast
    have hafter : self.afterCr = false := by
      by_contra hne
      rw [h (by simpa using hne)] at hlt
      exact absurd hlt (by simp)
    have hsplit : bytes = bytes.take last ++ bytes[last] :: bytes.drop (last + 1) := by
      rw [List.getElem_cons_drop, List.take_append_drop]
    have hfree : byteTerminators.Free (bytes.take last) := by
      constructor <;> intro hmem <;> obtain ⟨i, hi, heq⟩ := List.mem_take_iff_getElem.mp hmem <;>
        have hterm := hbefore i (by omega) <;> rw [heq] at hterm <;> exact hterm (by decide)
    have hcr : (bytes[last]? == some 13) = decide (bytes[last] = byteTerminators.cr) := by
      rw [List.getElem?_eq_getElem hlt]
      rfl
    have hreader : ({ self with line := [] } : LineReader).afterCr = false := hafter
    have hnext : splitLoop next.1 next.2 = scanned { self with
        line := [], afterCr := decide (bytes[last] = byteTerminators.cr) }
          (bytes.drop (last + 1)) := by
      rw [ih (afterCr_pastTerminator hreader _ _), ← hcr]
      exact scanned_pastTerminator hreader _ _
    have htext : text = fromUtf8Lossy (self.line ++ bytes.take last) := by
      simp only [text]
      split
      · next hline => rw [hline, List.nil_append]
      · rfl
    have hscan := byteTerminators.scan_append self.line self.afterCr (bytes.take last)
      (bytes[last] :: bytes.drop (last + 1))
    rw [← hsplit, hafter, Terminators.scan_free hfree,
      Terminators.scan_terminator ((isTerminator_iff _).mp hend)] at hscan
    rw [hnext, htext, scanned, scanned, hafter, hscan]
    rfl

/-- **Splitting at terminators is scanning the bytes.** -/
theorem split_eq (self : LineReader) (bytes : List UInt8) :
    split self bytes = scanned self bytes := by
  unfold split
  split
  · next hafter =>
    split
    · next rest =>
      have hskip := byteTerminators.scan_true (s := 10 :: rest) (by simp) self.line
      rw [splitLoop_eq (by simp), scanned, scanned, hafter, hskip]
      rfl
    · exact splitLoop_eq fun _ => rfl
    · next hlf hnil =>
      have hhead : bytes.head? ≠ some byteTerminators.lf := fun hhead => by
        obtain ⟨rest, rfl⟩ := List.head?_eq_some_iff.mp hhead
        exact hlf rest rfl
      rw [splitLoop_eq (by simp), scanned, scanned, hafter, byteTerminators.scan_true hnil,
        Terminators.skip_of_head? hhead]
  · next hafter => exact splitLoop_eq fun h => absurd h hafter

/-! ### What is pending -/

theorem whole_utf16 {encoding : TextEncoding} {unit : UInt8 → UInt8 → Nat}
    (h : encoding = .utf16Le ∧ unit = u16FromLeBytes ∨ encoding = .utf16Be ∧ unit = u16FromBeBytes)
    (pending : List UInt8) :
    (pending.take (whole encoding pending)).length % 2 = 0 ∧
      (EndsHigh unit (pending.take (whole encoding pending)) →
        StartsHigh unit (pending.drop (whole encoding pending))) := by
  have hwhole : whole encoding pending =
      if 2 ≤ pending.length - pending.length % 2 then
        if IsHigh (unit (pending.getD (pending.length - pending.length % 2 - 2) 0)
            (pending.getD (pending.length - pending.length % 2 - 1) 0)) then
          pending.length - pending.length % 2 - 2
        else pending.length - pending.length % 2
      else pending.length - pending.length % 2 := by
    rcases h with ⟨rfl, rfl⟩ | ⟨rfl, rfl⟩ <;> simp [whole]
  rw [hwhole]
  generalize hn : pending.length - pending.length % 2 = n
  split
  · next htwo =>
    obtain ⟨m, rfl⟩ : ∃ m, n = m + 2 := ⟨n - 2, by omega⟩
    have ha : m < pending.length := by omega
    have hb : m + 1 < pending.length := by omega
    have hdrop : pending.drop m = pending[m] :: pending[m + 1] :: pending.drop (m + 2) := by
      rw [List.getElem_cons_drop, List.getElem_cons_drop]
    have hget : pending.getD (m + 2 - 2) 0 = pending[m] ∧
        pending.getD (m + 2 - 1) 0 = pending[m + 1] := by simp [ha, hb]
    rw [hget.1, hget.2]
    split
    · next hhigh =>
      refine ⟨?_, fun _ => ⟨_, ?_, hhigh⟩⟩
      · rw [length_take]
        omega
      · rw [Nat.add_sub_cancel, hdrop]
        rfl
    · next hhigh =>
      have htake : pending.take (m + 2) = pending.take m ++ [pending[m], pending[m + 1]] := by
        rw [List.take_add, hdrop]
        rfl
      have heven : (pending.take m).length % 2 = 0 := by
        rw [length_take]
        omega
      refine ⟨?_, fun hend => ?_⟩
      · rw [length_take]
        omega
      · rw [htake] at hend
        obtain ⟨u, hu, hhigh'⟩ := hend.of_append heven (List.cons_ne_nil _ _)
        cases hu
        exact absurd hhigh' hhigh
  · next htwo =>
    obtain rfl : n = 0 := by omega
    refine ⟨rfl, fun ⟨u, hu, _⟩ => ?_⟩
    cases hu

def Pending (encoding : TextEncoding) (front pending : List UInt8) : Prop :=
  match encoding with
  | .utf8 => pending = []
  | .utf16Le => Held u16FromLeBytes front pending
  | .utf16Be => Held u16FromBeBytes front pending
  | .utf32Le | .utf32Be => front.length % 4 = 0

def raw (encoding : TextEncoding) (body : List UInt8) : List UInt8 :=
  if encoding = .utf8 then body else asBytes (decode encoding body)

theorem fromUtf8Lossy_raw (encoding : TextEncoding) (body : List UInt8) :
    fromUtf8Lossy (raw encoding body) = decode encoding body := by
  unfold raw
  split
  · next h =>
    rw [h]
    rfl
  · exact fromUtf8Lossy_asBytes _

theorem raw_append {encoding : TextEncoding} {x y : List UInt8}
    (h : decode encoding (x ++ y) = decode encoding x ++ decode encoding y) :
    raw encoding (x ++ y) = raw encoding x ++ raw encoding y := by
  unfold raw
  split
  · rfl
  · rw [h, asBytes, List.flatMap_append]
    rfl

/-- **What is decoded of the pending bytes may be decoded by itself.** -/
theorem Pending.whole {encoding : TextEncoding} {front pending : List UInt8}
    (h : Pending encoding front pending) (hne : encoding ≠ .utf8) (bytes : List UInt8) :
    let all := pending ++ bytes
    let next := all.take (LineReader.whole encoding all)
    raw encoding (front ++ next) = raw encoding front ++ raw encoding next ∧
      Pending encoding (front ++ next) (all.drop (LineReader.whole encoding all)) := by
  intro all next
  have hsplit : pending ++ bytes = next ++ all.drop (LineReader.whole encoding all) :=
    (List.take_append_drop _ all).symm
  have hutf32 : ∀ {x : List UInt8}, encoding = .utf32Le ∨ encoding = .utf32Be →
      (x.take (LineReader.whole encoding x)).length % 4 = 0 := by
    intro x hx
    rw [length_take]
    rcases hx with rfl | rfl <;> simp [LineReader.whole] <;> omega
  cases encoding with
  | utf8 => exact absurd rfl hne
  | utf16Le =>
    obtain ⟨heven, hhigh⟩ := whole_utf16 (.inl ⟨rfl, rfl⟩) all
    obtain ⟨hapart, hheld⟩ := Held.step h hsplit heven hhigh
    exact ⟨raw_append (decodeUtf16_append hapart), hheld⟩
  | utf16Be =>
    obtain ⟨heven, hhigh⟩ := whole_utf16 (.inr ⟨rfl, rfl⟩) all
    obtain ⟨hapart, hheld⟩ := Held.step h hsplit heven hhigh
    exact ⟨raw_append (decodeUtf16_append hapart), hheld⟩
  | utf32Le =>
    refine ⟨raw_append (decodeUtf32_append h _ _), ?_⟩
    have hnext : next.length % 4 = 0 := hutf32 (.inl rfl)
    have hfront : front.length % 4 = 0 := h
    rw [Pending, List.length_append]
    omega
  | utf32Be =>
    refine ⟨raw_append (decodeUtf32_append h _ _), ?_⟩
    have hnext : next.length % 4 = 0 := hutf32 (.inr rfl)
    have hfront : front.length % 4 = 0 := h
    rw [Pending, List.length_append]
    omega

theorem Pending.raw_append {encoding : TextEncoding} {front pending : List UInt8}
    (h : Pending encoding front pending) :
    raw encoding (front ++ pending) = raw encoding front ++ raw encoding pending := by
  cases encoding with
  | utf8 => rfl
  | utf16Le => exact LineReader.raw_append (decodeUtf16_append (Held.apart h))
  | utf16Be => exact LineReader.raw_append (decodeUtf16_append (Held.apart h))
  | utf32Le => exact LineReader.raw_append (decodeUtf32_append h _ _)
  | utf32Be => exact LineReader.raw_append (decodeUtf32_append h _ _)

/-! ### Chunks -/

/-- A reader that knows the encoding, when some of the bytes behind the byte-order mark are
decoded: it has called back with the lines they complete. -/
structure Fed (encoding : TextEncoding) (front : List UInt8) (reader : LineReader)
    (lines : List (List UInt8)) : Prop where
  known : reader.encoding = some encoding
  pending : Pending encoding front reader.pending
  scan : byteTerminators.scan [] false (raw encoding front) =
    ((reader.line, reader.afterCr), lines)

variable {encoding : TextEncoding} {front : List UInt8} {lines : List (List UInt8)}

theorem raw_nil (encoding : TextEncoding) : raw encoding [] = [] := by
  cases encoding <;> rfl

theorem Fed.new (encoding : TextEncoding) : Fed encoding [] ⟨some encoding, [], [], false⟩ [] where
  known := rfl
  pending := by
    have hhigh : ∀ unit, ¬ EndsHigh unit [] := fun unit ⟨u, hu, _⟩ => by cases hu
    cases encoding with
    | utf8 => rfl
    | utf16Le => exact ⟨rfl, fun h => absurd h (hhigh _)⟩
    | utf16Be => exact ⟨rfl, fun h => absurd h (hhigh _)⟩
    | utf32Le => rfl
    | utf32Be => rfl
  scan := by rw [raw_nil, Terminators.scan]

theorem Fed.scan_append (h : Fed encoding front self lines) (bytes : List UInt8) :
    byteTerminators.scan [] false (raw encoding front ++ bytes) =
      ((byteTerminators.scan self.line self.afterCr bytes).1,
        lines ++ (byteTerminators.scan self.line self.afterCr bytes).2) := by
  rw [Terminators.scan_append, h.scan]

/-- **A chunk is decoded behind what was decoded, but for what is pending then.** -/
theorem Fed.feed (h : Fed encoding front self lines) (bytes : List UInt8) :
    ∃ front' lines',
      front' ++ (self.feed encoding bytes).1.pending = front ++ self.pending ++ bytes ∧
      Fed encoding front' (self.feed encoding bytes).1 (lines ++ lines') ∧
        (self.feed encoding bytes).2 = lines'.map fromUtf8Lossy := by
  unfold LineReader.feed
  split
  · next hutf8 =>
    subst hutf8
    have hpending : self.pending = [] := h.pending
    refine ⟨front ++ bytes, (byteTerminators.scan self.line self.afterCr bytes).2, ?_, ?_, ?_⟩ <;>
      rw [split_eq]
    · simp [scanned, hpending]
    · exact ⟨h.known, hpending, h.scan_append bytes⟩
    · rfl
  · next hne =>
    obtain ⟨hraw, hpending⟩ := Pending.whole h.pending hne bytes
    simp only
    generalize hall : self.pending ++ bytes = all at hraw hpending
    generalize hnext : all.take (LineReader.whole encoding all) = next at hraw hpending
    have hbytes : raw encoding next = asBytes (decode encoding next) := if_neg hne
    refine ⟨front ++ next,
      (byteTerminators.scan self.line self.afterCr (raw encoding next)).2, ?_, ?_, ?_⟩ <;>
        rw [split_eq, ← hbytes]
    · have hparts : next ++ all.drop (LineReader.whole encoding all) = all := by
        rw [← hnext, List.take_append_drop]
      rw [append_assoc, append_assoc, hall]
      exact congrArg (front ++ ·) hparts
    · refine ⟨h.known, hpending, ?_⟩
      rw [hraw, h.scan_append]
      rfl
    · rfl

/-- **The end of the stream completes the lines of all its bytes.** -/
theorem Fed.finish (h : Fed encoding front self lines) :
    lines.map fromUtf8Lossy ++ self.finish =
      charTerminators.lines (decode encoding (front ++ self.pending)) := by
  have hline : ∀ line : List UInt8, (if line = [] then [] else [line]).map fromUtf8Lossy =
      if line ≠ [] then [fromUtf8Lossy line] else [] := by
    intro line
    by_cases hnil : line = [] <;> simp [hnil]
  rw [← fromUtf8Lossy_raw, transcoding_fromUtf8Lossy.lines, Terminators.lines_eq_scan,
    h.pending.raw_append, h.scan_append, map_append, map_append, hline,
    append_assoc]
  congr 1
  rw [LineReader.finish, h.known]
  simp only
  by_cases hnil : self.pending = []
  · rw [if_neg (by simp [hnil]), hnil, raw_nil]
    rfl
  · have hne : encoding ≠ .utf8 := by
      rintro rfl
      exact hnil h.pending
    have hbytes : raw encoding self.pending = asBytes (decode encoding self.pending) := if_neg hne
    rw [if_pos hnil, split_eq, ← hbytes]
    rfl

theorem Fed.readFrom (h : Fed encoding front self lines) (chunks : List (List UInt8)) :
    lines.map fromUtf8Lossy ++ self.readFrom chunks =
      charTerminators.lines (decode encoding (front ++ self.pending ++ chunks.flatten)) := by
  induction chunks generalizing front self lines with
  | nil =>
    rw [LineReader.readFrom, h.finish, List.flatten_nil, List.append_nil]
  | cons chunk chunks ih =>
    obtain ⟨front', lines', hbytes, hfed, hout⟩ := h.feed chunk
    have hpush : push self chunk = self.feed encoding chunk := by rw [push, h.known]
    have hrest := ih hfed
    rw [LineReader.readFrom, hpush, hout, ← append_assoc, ← map_append, hrest, hbytes,
      List.flatten_cons, append_assoc (front ++ self.pending)]

/-- A reader that has not seen enough bytes to know the encoding. -/
def starting (start : List UInt8) : LineReader := ⟨none, start, [], false⟩

/-- **Settling feeds what is behind the byte-order mark to a new reader.** -/
theorem fed_settle (start : List UInt8) :
    ∃ front lines, front ++ (settle (starting start)).2.1.pending =
        start.drop (detectEncoding start).2 ∧
      Fed (detectEncoding start).1 front (settle (starting start)).2.1 lines ∧
        (settle (starting start)).2.2 = lines.map fromUtf8Lossy := by
  obtain ⟨front, lines, hbytes, hfed, hout⟩ := (Fed.new (detectEncoding start).1).feed
    (start.drop (detectEncoding start).2)
  exact ⟨front, lines, hbytes, hfed, hout⟩

theorem finish_starting (start : List UInt8) :
    (starting start).finish = charTerminators.lines (decodeStreamText start) := by
  obtain ⟨front, lines, hbytes, hfed, hout⟩ := fed_settle start
  have hfinish : (starting start).finish =
      (settle (starting start)).2.2 ++ (settle (starting start)).2.1.finish := by
    conv_rhs => rw [LineReader.finish, hfed.known]
    rw [LineReader.finish]
    exact append_assoc ..
  rw [hfinish, hout, hfed.finish, hbytes, decodeStreamText_eq]

/-- The lines of all chunks, those that make the encoding known among them. -/
theorem readFrom_starting (start : List UInt8) (h : start.length < longestBom)
    (chunks : List (List UInt8)) :
    (starting start).readFrom chunks =
      charTerminators.lines (decodeStreamText (start ++ chunks.flatten)) := by
  induction chunks generalizing start with
  | nil => rw [LineReader.readFrom, finish_starting, List.flatten_nil, List.append_nil]
  | cons chunk chunks ih =>
    set take := min (longestBom - start.length) chunk.length with htake
    set start' := start ++ chunk.take take with hstart
    have hlength : start'.length = start.length + take := by
      rw [hstart, List.length_append, length_take]
      omega
    by_cases hshort : start'.length < longestBom
    · have hpush : push (starting start) chunk = (starting start', []) := if_pos hshort
      have hall : chunk.take take = chunk := List.take_of_length_le (by omega)
      rw [LineReader.readFrom, hpush, List.nil_append, ih _ hshort, hstart, hall, List.flatten_cons,
        append_assoc]
    · obtain ⟨front, lines, hbytes, hfed, hout⟩ := fed_settle start'
      obtain ⟨front', lines', hbytes', hfed', hout'⟩ := hfed.feed (chunk.drop take)
      obtain ⟨hdetect, hbom⟩ := detectEncoding_append (Nat.le_of_not_lt hshort)
        (chunk.drop take ++ chunks.flatten)
      have hpush : push (starting start) chunk =
          (((settle (starting start')).2.1.feed (detectEncoding start').1 (chunk.drop take)).1,
            (settle (starting start')).2.2 ++
              ((settle (starting start')).2.1.feed (detectEncoding start').1
                (chunk.drop take)).2) :=
        if_neg hshort
      have hstream : start ++ (chunk :: chunks).flatten =
          start' ++ (chunk.drop take ++ chunks.flatten) := by
        rw [hstart, List.flatten_cons, append_assoc, ← append_assoc (chunk.take take),
          List.take_append_drop]
      rw [LineReader.readFrom, hpush, hout, hout', ← map_append, hfed'.readFrom, hbytes',
        hbytes, decodeStreamText_eq, hstream, hdetect, List.drop_append_of_le_length hbom,
        append_assoc]

end LineReader

/-- **How a stream is cut into chunks does not matter.**  For any chunks, the lines that are read
are the lines of the text of all their bytes. -/
theorem readLines_eq (chunks : List (List UInt8)) :
    readLines chunks = charTerminators.lines (decodeStreamText chunks.flatten) :=
  LineReader.readFrom_starting [] (by decide) chunks

end Ferrofin.Streams
