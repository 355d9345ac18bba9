import Mathlib.Data.List.Basic

/-!
# Lines

A text over any symbols is cut at a carriage return, at a line feed, and at the two of them in
this order.  `lines` says what its lines are; `scan` reads the text a symbol at a time, and so
may read it in pieces (`scan_append`, `lines_eq_scan`).

A function of texts that keeps the terminators where they are (`Transcoding`) takes the lines of
a text to the lines of its result (`Transcoding.lines`).
-/

namespace Ferrofin.Lib

variable {α β : Type}

structure Terminators (α : Type) where
  cr : α
  lf : α
  cr_ne_lf : cr ≠ lf

namespace Terminators

variable (t : Terminators α)

def Free (s : List α) : Prop := t.cr ∉ s ∧ t.lf ∉ s

variable {t} in
theorem Free.of_cons {a : α} {s : List α} (h : t.Free (a :: s)) :
    a ≠ t.cr ∧ a ≠ t.lf ∧ t.Free s := by
  obtain ⟨hcr, hlf⟩ := h
  simp only [List.mem_cons, not_or] at hcr hlf
  exact ⟨Ne.symm hcr.1, Ne.symm hlf.1, hcr.2, hlf.2⟩

theorem modifyHead_nil_append (l : List (List α)) : l.modifyHead ([] ++ ·) = l := by
  cases l <;> rfl

theorem modifyHead_append_append (x y : List α) (l : List (List α)) :
    (l.modifyHead (y ++ ·)).modifyHead (x ++ ·) = l.modifyHead (x ++ y ++ ·) := by
  cases l <;> simp

variable [DecidableEq α]

def pieces : List α → List (List α)
  | [] => [[]]
  | [a] => if a = t.cr ∨ a = t.lf then [[], []] else [[a]]
  | a :: b :: s =>
    if a = t.cr ∧ b = t.lf then [] :: pieces s
    else if a = t.cr ∨ a = t.lf then [] :: pieces (b :: s)
    else (pieces (b :: s)).modifyHead (a :: ·)

/-- The lines of a text; a terminator at its end opens none. -/
def lines (s : List α) : List (List α) :=
  if (t.pieces s).getLast? = some [] then (t.pieces s).dropLast else t.pieces s

/-- A text read after another, whose last symbol may have been a carriage return. -/
def skip (afterCr : Bool) (s : List α) : List α :=
  if afterCr = true ∧ s.head? = some t.lf then s.tail else s

/-- The line so far, whether a carriage return was read last, and the lines that ended. -/
def scan (line : List α) (afterCr : Bool) : List α → (List α × Bool) × List (List α)
  | [] => ((line, afterCr), [])
  | a :: s =>
    if afterCr = true ∧ a = t.lf then scan line false s
    else if a = t.cr ∨ a = t.lf then
      ((scan [] (a = t.cr) s).1, line :: (scan [] (a = t.cr) s).2)
    else scan (line ++ [a]) false s

variable {t} {a : α} {s x y line : List α} {afterCr : Bool}

@[simp] theorem skip_false (s : List α) : t.skip false s = s := by simp [skip]

@[simp] theorem skip_lf (s : List α) : t.skip true (t.lf :: s) = s := by simp [skip]

theorem skip_of_head? (h : s.head? ≠ some t.lf) (afterCr : Bool) : t.skip afterCr s = s := by
  rw [skip, if_neg fun hc => h hc.2]

theorem pieces_cons (hcr : a ≠ t.cr) (hlf : a ≠ t.lf) (s : List α) :
    t.pieces (a :: s) = (t.pieces s).modifyHead (a :: ·) := by
  cases s with
  | nil => simp [pieces, hcr, hlf]
  | cons b s => rw [pieces, if_neg (by simp [hcr]), if_neg (by simp [hcr, hlf])]

theorem pieces_lf (s : List α) : t.pieces (t.lf :: s) = [] :: t.pieces s := by
  cases s with
  | nil => simp [pieces]
  | cons b s => rw [pieces, if_neg (by simp [t.cr_ne_lf.symm]), if_pos (.inr rfl)]

theorem pieces_cr (s : List α) : t.pieces (t.cr :: s) = [] :: t.pieces (t.skip true s) := by
  cases s with
  | nil => simp [pieces, skip]
  | cons b s =>
    by_cases hb : b = t.lf
    · rw [pieces, if_pos ⟨rfl, hb⟩, hb, skip_lf]
    · rw [pieces, if_neg (by simp [hb]), if_pos (.inl rfl), skip_of_head? (by simpa using hb)]

theorem pieces_append (h : t.Free x) (s : List α) :
    t.pieces (x ++ s) = (t.pieces s).modifyHead (x ++ ·) := by
  induction x with
  | nil => rw [List.nil_append, modifyHead_nil_append]
  | cons a x ih =>
    obtain ⟨hcr, hlf, hfree⟩ := h.of_cons
    rw [List.cons_append, pieces_cons hcr hlf, ih hfree]
    exact modifyHead_append_append [a] x _

theorem pieces_of_free (h : t.Free x) : t.pieces x = [x] := by
  have := pieces_append h []
  rwa [List.append_nil, pieces, List.modifyHead_cons, List.append_nil] at this

theorem free_or_exists (t : Terminators α) (s : List α) :
    t.Free s ∨ ∃ x a y, s = x ++ a :: y ∧ t.Free x ∧ (a = t.cr ∨ a = t.lf) := by
  induction s with
  | nil => exact .inl ⟨List.not_mem_nil, List.not_mem_nil⟩
  | cons a s ih =>
    by_cases ha : a = t.cr ∨ a = t.lf
    · exact .inr ⟨[], a, s, rfl, ⟨List.not_mem_nil, List.not_mem_nil⟩, ha⟩
    obtain ⟨hcr, hlf⟩ := not_or.mp ha
    have hfree : ∀ {x : List α}, t.Free x → t.Free (a :: x) := fun hx => by
      simp [Free, Ne.symm hcr, Ne.symm hlf, hx.1, hx.2]
    rcases ih with h | ⟨x, b, y, rfl, hx, hb⟩
    · exact .inl (hfree h)
    · exact .inr ⟨a :: x, b, y, rfl, hfree hx, hb⟩

/-! ### Reading a symbol at a time -/

/-- **A text may be read in two parts.** -/
theorem scan_append (line : List α) (afterCr : Bool) (x y : List α) :
    t.scan line afterCr (x ++ y) =
      ((t.scan (t.scan line afterCr x).1.1 (t.scan line afterCr x).1.2 y).1,
        (t.scan line afterCr x).2 ++
          (t.scan (t.scan line afterCr x).1.1 (t.scan line afterCr x).1.2 y).2) := by
  induction x generalizing line afterCr with
  | nil => rfl
  | cons a x ih =>
    rw [List.cons_append, scan, scan]
    split
    · exact ih _ _
    split
    · rw [ih]
      rfl
    · exact ih _ _

theorem scan_free (h : t.Free x) (line : List α) :
    t.scan line false x = ((line ++ x, false), []) := by
  induction x generalizing line with
  | nil => rw [List.append_nil, scan]
  | cons a x ih =>
    obtain ⟨hcr, hlf, hfree⟩ := h.of_cons
    rw [scan, if_neg (by simp), if_neg (by simp [hcr, hlf]), ih hfree, List.append_assoc,
      List.singleton_append]

theorem scan_terminator (ha : a = t.cr ∨ a = t.lf) (line s : List α) :
    t.scan line false (a :: s) =
      ((t.scan [] (a = t.cr) s).1, line :: (t.scan [] (a = t.cr) s).2) := by
  rw [scan, if_neg (by simp), if_pos ha]

theorem scan_true (h : s ≠ []) (line : List α) :
    t.scan line true s = t.scan line false (t.skip true s) := by
  obtain ⟨a, s, rfl⟩ := List.exists_cons_of_ne_nil h
  by_cases ha : a = t.lf
  · rw [ha, skip_lf, scan, if_pos ⟨rfl, rfl⟩]
  · rw [skip_of_head? (by simpa using ha)]
    simp [scan, ha]

/-- What was read is the pieces but the last, and the last is the line so far. -/
theorem scan_pieces (line : List α) (afterCr : Bool) (s : List α) :
    (t.scan line afterCr s).2 ++ [(t.scan line afterCr s).1.1] =
      (t.pieces (t.skip afterCr s)).modifyHead (line ++ ·) := by
  induction s generalizing line afterCr with
  | nil => simp [scan, skip, pieces]
  | cons a s ih =>
    rw [scan]
    split
    · next hskip =>
      rw [ih, skip_false, hskip.1, hskip.2, skip_lf]
    next hskip =>
    have hstay : t.skip afterCr (a :: s) = a :: s := by
      rw [skip, if_neg]
      rintro ⟨hafter, hhead⟩
      exact hskip ⟨hafter, Option.some.inj hhead⟩
    rw [hstay]
    split
    · rw [List.cons_append, ih, modifyHead_nil_append]
      by_cases hcr : a = t.cr
      · rw [hcr, pieces_cr, decide_eq_true rfl, List.modifyHead_cons, List.append_nil]
      · next ha =>
        rw [ha.resolve_left hcr, pieces_lf, decide_eq_false t.cr_ne_lf.symm, List.modifyHead_cons,
          List.append_nil, skip_false]
    · next ha =>
      obtain ⟨hcr, hlf⟩ := not_or.mp ha
      rw [ih, pieces_cons hcr hlf, skip_false]
      exact (modifyHead_append_append line [a] _).symm

/-- **The lines of a text are what was read of it, and the last line if there is anything in
it.** -/
theorem lines_eq_scan (s : List α) :
    t.lines s = (t.scan [] false s).2 ++
      if (t.scan [] false s).1.1 = [] then [] else [(t.scan [] false s).1.1] := by
  have hpieces : t.pieces s = (t.scan [] false s).2 ++ [(t.scan [] false s).1.1] := by
    rw [scan_pieces, modifyHead_nil_append, skip_false]
  rw [lines, hpieces]
  split
  · next hlast =>
    rw [if_pos (by simpa using hlast), List.dropLast_concat, List.append_nil]
  · next hlast => rw [if_neg (by simpa using hlast)]

end Terminators

/-! ### Transcoding -/

open Terminators

/-- A function of texts that leaves terminators, and nothing else, as terminators. -/
structure Transcoding (t : Terminators β) (t' : Terminators α) (f : List β → List α) : Prop where
  nil : f [] = []
  ne_nil : ∀ {x}, x ≠ [] → f x ≠ []
  cr : ∀ x y, f (x ++ t.cr :: y) = f x ++ t'.cr :: f y
  lf : ∀ x y, f (x ++ t.lf :: y) = f x ++ t'.lf :: f y
  free : ∀ {x}, t.Free x → t'.Free (f x)

namespace Transcoding

variable [DecidableEq β] {t : Terminators β} {t' : Terminators α} {f : List β → List α}

theorem head?_ne_lf (h : Transcoding t t' f) {y : List β} (hy : y.head? ≠ some t.lf) :
    (f y).head? ≠ some t'.lf := by
  have hfree : ∀ {x : List β}, t.Free x → (f x).head? ≠ some t'.lf := fun hx hhead =>
    (h.free hx).2 (List.mem_of_mem_head? hhead)
  rcases t.free_or_exists y with hx | ⟨x, a, z, rfl, hx, rfl | rfl⟩
  · exact hfree hx
  · rw [h.cr]
    cases hfx : f x with
    | nil => simpa using t'.cr_ne_lf
    | cons b rest =>
      have := hfree hx
      rwa [hfx] at this
  · have hne : x ≠ [] := by
      rintro rfl
      exact hy rfl
    obtain ⟨b, rest, hfx⟩ := List.exists_cons_of_ne_nil (h.ne_nil hne)
    have := hfree hx
    rw [h.lf, hfx]
    rwa [hfx] at this

variable [DecidableEq α]

theorem skip_eq (h : Transcoding t t' f) (y : List β) : t'.skip true (f y) = f (t.skip true y) := by
  by_cases hy : y.head? = some t.lf
  · obtain ⟨z, rfl⟩ := List.head?_eq_some_iff.mp hy
    have hlf := h.lf [] z
    rw [List.nil_append, h.nil, List.nil_append] at hlf
    rw [hlf, skip_lf, skip_lf]
  · rw [skip_of_head? hy, skip_of_head? (h.head?_ne_lf hy)]

theorem pieces (h : Transcoding t t' f) (s : List β) : t'.pieces (f s) = (t.pieces s).map f := by
  induction hn : s.length using Nat.strongRecOn generalizing s with
  | ind n ih =>
    rcases t.free_or_exists s with hs | ⟨x, a, y, rfl, hx, ha⟩
    · rw [pieces_of_free hs, pieces_of_free (h.free hs)]
      rfl
    have hlength : (t.skip true y).length ≤ y.length := by
      unfold skip
      split
      · rw [List.length_tail]
        omega
      · exact Nat.le_refl _
    simp only [List.length_append, List.length_cons] at hn
    rcases ha with rfl | rfl
    · rw [h.cr, Terminators.pieces_append hx, Terminators.pieces_append (h.free hx), pieces_cr,
        pieces_cr, h.skip_eq, ih _ (by omega) _ rfl]
      simp
    · rw [h.lf, Terminators.pieces_append hx, Terminators.pieces_append (h.free hx), pieces_lf,
        pieces_lf, ih _ (by omega) _ rfl]
      simp

theorem lines (h : Transcoding t t' f) (s : List β) : t'.lines (f s) = (t.lines s).map f := by
  have hnil : ∀ {x : List β}, f x = [] ↔ x = [] := fun {x} =>
    ⟨fun hx => by_contra fun hne => h.ne_nil hne hx, fun hx => hx ▸ h.nil⟩
  have hlast : (t'.pieces (f s)).getLast? = some [] ↔ (t.pieces s).getLast? = some [] := by
    rw [h.pieces, List.getLast?_map, Option.map_eq_some_iff]
    constructor
    · rintro ⟨x, hx, hfx⟩
      rwa [hnil.mp hfx] at hx
    · exact fun hx => ⟨[], hx, h.nil⟩
  rw [Terminators.lines, Terminators.lines]
  by_cases hempty : (t.pieces s).getLast? = some []
  · rw [if_pos hempty, if_pos (hlast.mpr hempty), h.pieces, List.map_dropLast]
  · rw [if_neg hempty, if_neg fun hc => hempty (hlast.mp hc), h.pieces]

end Transcoding

end Ferrofin.Lib
