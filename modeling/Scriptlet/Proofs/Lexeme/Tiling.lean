import Mathlib.Data.String.Basic
import Mathlib.Order.Monotone.Basic
import Scriptlet.Proofs.Lexeme.Readings

/-!
# Readings Tile the Source

What becomes of every byte of a source that is read to its end and beyond, with
errors passed over. Each reading takes a range of bytes: a token its span, an
error the fragment it reports. The ranges follow each other from the front of
the source to its end, and what they leave out are gaps. So nothing is read
twice, and nothing is lost but blanks and comments.

The cursor carries all of this. Its offset counts the bytes behind it, and what
is behind it and what is ahead make up the source (`Cursor.Within`). A reading
starts at the offset behind the gap and stops at the offset of the next cursor,
so ranges are compared by comparing cursors. At least one character is ahead of
a reading that is not ahead of the next one, which is why the end comes.

## Main definitions

* `Cursor.after`: The cursor after some readings.
* `readingAt`, `rangeAt`: A reading of a source, and the bytes it takes.
* `Tiling`: The ranges of the readings and the gaps between them are the source.
* `Cursor.Within`: A cursor stands at a place of a source.

## Theorems

* `within_next`: Reading stays within the source.
* `range_of_read?`: The bytes that a reading takes.
* `exists_count`: The end comes, and soon.
* `skipGap_after`: Once there, it stays.
* `readings_tile`: Every source is tiled.
-/

namespace Scriptlet

/-- The bytes that a reading takes. -/
def Span.ofReading : Except LexicalError Lexeme → Span
  | .ok lexeme => lexeme.span
  | .error e => ⟨e.offset, e.offset + e.fragment.utf8ByteSize⟩

/-- The text of a source from one byte up to another. -/
def textBetween (source : String) (start stop : Nat) : String :=
  String.Pos.Raw.extract source ⟨start⟩ ⟨stop⟩

/-- The cursor after `n` readings. -/
def Cursor.after (cursor : Cursor) (n : Nat) : Cursor :=
  Nat.iterate (fun c => c.next.2) n cursor

/-- The reading of a source that comes after `n` others. -/
def readingAt (source : String) (n : Nat) : Except LexicalError Lexeme :=
  ((Cursor.start source).after n).next.1

/-- The bytes that the reading after `n` others takes. -/
def rangeAt (source : String) (n : Nat) : Span := .ofReading (readingAt source n)

/-- Where the first `n` readings end: behind the last of them, or at the front
    of the source if there is none. -/
def endOfFirst (source : String) : Nat → Nat
  | 0 => 0
  | n + 1 => (rangeAt source n).stop

/-- The first `count` readings of a source tile it, and then it has ended. -/
structure Tiling (source : String) (count : Nat) : Prop where
  /-- Every reading before the end is worth a character. -/
  few : count ≤ source.length
  /-- The end does not come early. -/
  proper : ∀ n < count, ∀ lexeme, readingAt source n = .ok lexeme → lexeme.token ≠ .eof
  nonempty : ∀ n < count, (rangeAt source n).start < (rangeAt source n).stop
  bounded : ∀ n < count, (rangeAt source n).stop ≤ source.utf8ByteSize
  /-- No range divides a character. -/
  whole : ∀ n < count, String.Pos.Raw.IsValid source ⟨(rangeAt source n).start⟩ ∧
    String.Pos.Raw.IsValid source ⟨(rangeAt source n).stop⟩
  increasing : ∀ m n, m < n → n < count → (rangeAt source m).start < (rangeAt source n).start
  apart : ∀ m n, m < n → n < count → (rangeAt source m).stop ≤ (rangeAt source n).start
  /-- An error reports the text that it takes. -/
  fragment : ∀ n < count, ∀ e, readingAt source n = .error e →
    e.fragment = textBetween source (rangeAt source n).start (rangeAt source n).stop
  /-- Before each range there is a gap up to the range before it. -/
  gaps : ∀ n < count,
    IsGap (textBetween source (endOfFirst source n) (rangeAt source n).start).toList
  /-- Behind the last range there is a gap up to the end. -/
  rest : IsGap (textBetween source (endOfFirst source count) source.utf8ByteSize).toList
  /-- From then on, every reading is the end of the source, always the same. -/
  ending : ∃ line, ∀ n, count ≤ n →
    readingAt source n = .ok ⟨.eof, ⟨source.utf8ByteSize, source.utf8ByteSize⟩, line⟩

/-! ### Places in a source -/

/-- A cursor stands at a place of a source: what is behind it and what is ahead
    make up the source, and its offset counts the bytes behind. -/
def Cursor.Within (cursor : Cursor) (source : String) : Prop :=
  ∃ past, source.toList = past ++ cursor.rest ∧ cursor.offset = Text.width past

theorem width_eq_utf8Len (text : List Char) : Text.width text = String.utf8Len text := by
  induction text with
  | nil => rfl
  | cons c text ih =>
      rw [Text.width, String.utf8Len_cons, ih]
      omega

theorem width_toList (source : String) : Text.width source.toList = source.utf8ByteSize := by
  rw [width_eq_utf8Len, String.utf8Len_toList]

theorem width_pos {text : List Char} (h : text ≠ []) : 0 < Text.width text := by
  rw [width_eq_utf8Len]
  exact Nat.pos_of_ne_zero fun hzero => h (String.utf8Len_eq_zero.mp hzero)

section Within

variable {cursor : Cursor} {source : String} (h : cursor.Within source)

include h

theorem within_pass {text rest : List Char} (hrest : cursor.rest = text ++ rest) :
    (cursor.pass text rest).Within source := by
  rcases h with ⟨past, hsource, hoffset⟩
  refine ⟨past ++ text, ?_, ?_⟩
  · rw [hsource, hrest, List.append_assoc]
    rfl
  · rw [Text.width_append, ← hoffset]
    rfl

theorem textBetween_pass {text rest : List Char} (hrest : cursor.rest = text ++ rest) :
    textBetween source cursor.offset (cursor.pass text rest).offset = String.ofList text := by
  rcases h with ⟨past, hsource, hoffset⟩
  have hstring : source = String.ofList (past ++ text ++ rest) := by
    rw [List.append_assoc, ← hrest, ← hsource, String.ofList_toList]
  have hstop : (cursor.pass text rest).offset = String.utf8Len past + String.utf8Len text := by
    rw [← width_eq_utf8Len, ← width_eq_utf8Len, ← hoffset]
    rfl
  rw [textBetween, hstop, hoffset, width_eq_utf8Len, hstring]
  exact String.extract_of_valid past text rest

theorem isValid_of_within : String.Pos.Raw.IsValid source ⟨cursor.offset⟩ := by
  rcases h with ⟨past, hsource, hoffset⟩
  refine String.Pos.Raw.isValid_iff_exists_append.mpr
    ⟨String.ofList past, String.ofList cursor.rest, ?_, ?_⟩
  · rw [← String.ofList_append, ← hsource, String.ofList_toList]
  · rw [String.rawEndPos_ofList, hoffset, width_eq_utf8Len]

theorem offset_add_of_within :
    cursor.offset + Text.width cursor.rest = source.utf8ByteSize := by
  rcases h with ⟨past, hsource, hoffset⟩
  rw [← width_toList, hsource, Text.width_append, hoffset]

theorem within_skipGap : cursor.skipGap.Within source :=
  within_pass h (gap_append cursor.rest).symm

theorem isGap_skipGap :
    IsGap (textBetween source cursor.offset cursor.skipGap.offset).toList := by
  rw [Cursor.skipGap, textBetween_pass h (gap_append cursor.rest).symm, String.toList_ofList]
  exact isGap_gap cursor.rest

/-- Where nothing is left to read, the gap ahead goes to the end. -/
theorem offset_of_read?_none (hread : cursor.read? = none) :
    cursor.skipGap.offset = source.utf8ByteSize := by
  have hsize := offset_add_of_within (within_skipGap h)
  rwa [read?_eq_none.mp hread, Text.width, Nat.add_zero] at hsize

/-- The bytes that a reading takes: from behind the gap up to the next cursor. -/
theorem range_of_read? {after : Cursor} {reading : Except LexicalError Lexeme}
    (hread : cursor.read? = some (reading, after)) :
    after.Within source ∧ cursor.skipGap.offset < after.offset ∧
      Span.ofReading reading = ⟨cursor.skipGap.offset, after.offset⟩ ∧
      ∀ e, reading = .error e →
        e.fragment = textBetween source cursor.skipGap.offset after.offset := by
  rcases read?_eq_some hread with ⟨scanned, hscan, rfl, hreading⟩
  have hrest : cursor.skipGap.rest = scanned.text ++ scanned.rest := (scan?_append hscan).symm
  have htext := textBetween_pass (within_skipGap h) hrest
  have hpos := width_pos (scan?_text_ne_nil hscan)
  refine ⟨within_pass (within_skipGap h) hrest, ?_, ?_, ?_⟩
  · simp only [Cursor.pass]
    omega
  · rcases hreading with ⟨token, _, rfl⟩ | ⟨fault, _, rfl⟩
    · rfl
    · simp only [Span.ofReading, Cursor.pass, width_eq_utf8Len, String.utf8ByteSize_ofList]
  · rintro e rfl
    rcases hreading with ⟨_, _, hreading⟩ | ⟨fault, _, hreading⟩
    · cases hreading
    · cases hreading
      exact htext.symm

end Within

theorem within_start (source : String) : (Cursor.start source).Within source :=
  ⟨[], rfl, rfl⟩

/-! ### Reading on and on -/

/-- Reading stays within the source and does not go back. -/
theorem within_next {cursor : Cursor} {source : String} (h : cursor.Within source) :
    cursor.next.2.Within source ∧ cursor.offset ≤ cursor.next.2.offset := by
  have hgap : cursor.offset ≤ cursor.skipGap.offset := Nat.le_add_right _ _
  cases hread : cursor.read? with
  | none =>
      rw [next_of_none hread]
      exact ⟨within_skipGap h, hgap⟩
  | some pair =>
      rcases pair with ⟨reading, after⟩
      rcases range_of_read? h hread with ⟨hwithin, hlt, _⟩
      rw [next_of_some hread]
      exact ⟨hwithin, Nat.le_of_lt (Nat.lt_of_le_of_lt hgap hlt)⟩

theorem after_succ (cursor : Cursor) (n : Nat) :
    cursor.after (n + 1) = (cursor.after n).next.2 :=
  Function.iterate_succ_apply' _ n cursor

/-- After a reading, the rest are the readings of the cursor behind it. -/
theorem after_of_read? {cursor next : Cursor} {reading : Except LexicalError Lexeme}
    (h : cursor.read? = some (reading, next)) (n : Nat) :
    cursor.after (n + 1) = next.after n := by
  have hiterate := Function.iterate_succ_apply (fun c : Cursor => c.next.2) n cursor
  rw [next_of_some h] at hiterate
  exact hiterate

theorem within_after (source : String) (n : Nat) :
    ((Cursor.start source).after n).Within source := by
  induction n with
  | zero => exact within_start source
  | succ n ih =>
      rw [after_succ]
      exact (within_next ih).1

theorem offset_le_after (source : String) :
    Monotone fun n => ((Cursor.start source).after n).offset := by
  refine monotone_nat_of_le_succ fun n => ?_
  rw [after_succ]
  exact (within_next (within_after source n)).2

/-- The end comes, and soon: each reading before it takes a character. -/
theorem exists_count (cursor : Cursor) :
    ∃ count ≤ cursor.rest.length,
      (∀ n < count, (cursor.after n).read? ≠ none) ∧ (cursor.after count).read? = none := by
  fun_induction Cursor.readings cursor with
  | case1 cursor hread => exact ⟨0, Nat.zero_le _, fun n hn => absurd hn (Nat.not_lt_zero n), hread⟩
  | case2 cursor reading next hread later finish hlater ih =>
      rcases ih with ⟨count, hcount, hbefore, hend⟩
      have hafter := after_of_read? hread
      have hshorter := Cursor.length_of_read? hread
      refine ⟨count + 1, by omega, fun n hn => ?_, ?_⟩
      · cases n with
        | zero =>
            intro hnone
            rw [show cursor.after 0 = cursor from rfl, hread] at hnone
            cases hnone
        | succ n =>
            rw [hafter]
            exact hbefore n (by omega)
      · rw [hafter]
        exact hend

theorem skipGap_of_nil {cursor : Cursor} (h : cursor.rest = []) : cursor.skipGap = cursor := by
  rw [Cursor.skipGap, h, gap]
  cases cursor
  cases h
  rfl

/-- Once the end is reached, every further reading stays there. -/
theorem skipGap_after {cursor : Cursor} {count n : Nat} (h : (cursor.after count).read? = none)
    (hn : count ≤ n) : (cursor.after n).skipGap = (cursor.after count).skipGap := by
  induction n, hn using Nat.le_induction with
  | base => rfl
  | succ n _ ih =>
      have hrest := read?_eq_none.mp h
      have hread : (cursor.after n).read? = none := by
        rw [read?_eq_none, ih, hrest]
      rw [after_succ, next_of_none hread, ih, skipGap_of_nil hrest]

/-! ### The tiles -/

section Tiles

variable {source : String} {count : Nat}
  (hbefore : ∀ n < count, ((Cursor.start source).after n).read? ≠ none)

include hbefore

theorem read?_after {n : Nat} (hn : n < count) :
    ((Cursor.start source).after n).read? =
      some (readingAt source n, (Cursor.start source).after (n + 1)) := by
  rw [readingAt, after_succ]
  cases hread : ((Cursor.start source).after n).read? with
  | none => exact absurd hread (hbefore n hn)
  | some pair => rw [next_of_some hread]

theorem rangeAt_eq {n : Nat} (hn : n < count) :
    rangeAt source n =
      ⟨((Cursor.start source).after n).skipGap.offset,
        ((Cursor.start source).after (n + 1)).offset⟩ :=
  (range_of_read? (within_after source n) (read?_after hbefore hn)).2.2.1

theorem endOfFirst_eq {n : Nat} (hn : n ≤ count) :
    endOfFirst source n = ((Cursor.start source).after n).offset := by
  cases n with
  | zero => rfl
  | succ n => rw [endOfFirst, rangeAt_eq hbefore hn]

theorem rangeAt_nonempty {n : Nat} (hn : n < count) :
    (rangeAt source n).start < (rangeAt source n).stop := by
  rw [rangeAt_eq hbefore hn]
  exact (range_of_read? (within_after source n) (read?_after hbefore hn)).2.1

theorem rangeAt_apart {m n : Nat} (hmn : m < n) (hn : n < count) :
    (rangeAt source m).stop ≤ (rangeAt source n).start := by
  rw [rangeAt_eq hbefore (Nat.lt_trans hmn hn), rangeAt_eq hbefore hn]
  exact Nat.le_trans (offset_le_after source hmn) (Nat.le_add_right _ _)

end Tiles

/-- The end of a source, once it is reached, is the end of all its bytes. -/
theorem readingAt_of_end {source : String} {count n : Nat}
    (hend : ((Cursor.start source).after count).read? = none) (hn : count ≤ n) :
    readingAt source n =
      .ok ⟨.eof, ⟨source.utf8ByteSize, source.utf8ByteSize⟩,
        ((Cursor.start source).after count).skipGap.line⟩ := by
  have hsame := skipGap_after hend hn
  have hnone : ((Cursor.start source).after n).read? = none := by
    rw [read?_eq_none, hsame, read?_eq_none.mp hend]
  rw [readingAt, next_of_none hnone, hsame, Cursor.eof,
    offset_of_read?_none (within_after source count) hend]

/-- Every source is tiled by its readings, those of tokens and those of errors,
    up to some number of them that is not above the number of its characters.
    After these it has ended. -/
theorem readings_tile (source : String) : ∃ count, Tiling source count := by
  rcases exists_count (Cursor.start source) with ⟨count, hcount, hbefore, hend⟩
  refine ⟨count, ?_⟩
  constructor
  case few => exact String.length_toList ▸ hcount
  case proper =>
    intro n hn lexeme hlexeme
    have hread := read?_after hbefore hn
    rw [hlexeme] at hread
    exact (read?_wellFormed hread).ne_eof
  case nonempty => exact fun n => rangeAt_nonempty hbefore
  case bounded =>
    intro n hn
    rw [rangeAt_eq hbefore hn]
    exact Nat.le.intro (offset_add_of_within (within_after source (n + 1)))
  case whole =>
    intro n hn
    rw [rangeAt_eq hbefore hn]
    exact ⟨isValid_of_within (within_skipGap (within_after source n)),
      isValid_of_within (within_after source (n + 1))⟩
  case increasing =>
    intro m n hmn hn
    exact Nat.lt_of_lt_of_le (rangeAt_nonempty hbefore (Nat.lt_trans hmn hn))
      (rangeAt_apart hbefore hmn hn)
  case apart => exact fun m n => rangeAt_apart hbefore
  case fragment =>
    intro n hn e he
    rw [rangeAt_eq hbefore hn]
    exact (range_of_read? (within_after source n) (read?_after hbefore hn)).2.2.2 e he
  case gaps =>
    intro n hn
    rw [endOfFirst_eq hbefore (Nat.le_of_lt hn), rangeAt_eq hbefore hn]
    exact isGap_skipGap (within_after source n)
  case rest =>
    rw [endOfFirst_eq hbefore (Nat.le_refl count),
      ← offset_of_read?_none (within_after source count) hend]
    exact isGap_skipGap (within_after source count)
  case ending => exact ⟨_, fun n => readingAt_of_end hend⟩

end Scriptlet
