import Scriptlet.Proofs.Grammar.Exact
import Scriptlet.Proofs.Lexeme.Lines

/-!
# Lines of Lexical Errors

The line of a lexical error is not counted as the line of a lexeme is. It is the
line on which the text read before it ended, or the first line if there is no
such text, so whatever gap lies between is not yet counted. The error is reported
on the line it stands on exactly if there is no line feed in that gap, and else
as many lines above as there are line feeds in it.

That is so for every error of every reading, and nobody mends it later: the
error of a source is one of its readings, and a parser hands it on as it is.

## Main definitions

* `gapBefore`: What lies between a reading and the one before it.
* `LineOfError`: Where an error is reported, and where it stands.

## Theorems

* `lineOfError_of_readingAt`: The line of an error that is read.
* `exists_readingAt_of_scan`: The error that ends a scan is a reading.
* `error_line_lags`: The lines of all lexical errors of a source.
-/

namespace Scriptlet

/-- What lies in a source between the reading after `n` others and the one
    before it. -/
def gapBefore (source : String) (n : Nat) : String :=
  textBetween source (endOfFirst source n) (rangeAt source n).start

/-- The line of an error that is read after `n` other readings. -/
structure LineOfError (source : String) (n : Nat) (e : LexicalError) : Prop where
  /-- It is the line on which the readings before it end. -/
  counted : e.line = 1 + lineFeedsBefore source (endOfFirst source n)
  /-- The line of the text at fault is as many lines below as the gap has line
      feeds. -/
  lag : e.line + lineFeeds (gapBefore source n) = 1 + lineFeedsBefore source e.offset
  /-- So the two lines are the same only if the gap has none. -/
  exact_iff : e.line = 1 + lineFeedsBefore source e.offset ↔
    '\n' ∉ (gapBefore source n).toList

/-! ### Line feeds of a text -/

theorem breaks_eq_zero_iff {text : List Char} : Text.breaks text = 0 ↔ '\n' ∉ text := by
  induction text with
  | nil => exact ⟨fun _ => List.not_mem_nil, fun _ => rfl⟩
  | cons c rest ih =>
      rw [Text.breaks, List.mem_cons, not_or, ← ih]
      by_cases hc : c = '\n'
      · rw [if_pos hc]
        exact ⟨fun h => absurd h (by omega), fun h => absurd hc.symm h.1⟩
      · rw [if_neg hc, Nat.zero_add]
        exact ⟨fun h => ⟨fun hfeed => hc hfeed.symm, h⟩, fun h => h.2⟩

/-! ### Errors that are read -/

/-- Where an error is read, the source has not ended before. -/
theorem read?_ne_none_of_error {source : String} {n : Nat} {e : LexicalError}
    (h : readingAt source n = .error e) :
    ∀ m < n + 1, ((Cursor.start source).after m).read? ≠ none := by
  intro m hm hnone
  rw [readingAt_of_end hnone (Nat.le_of_lt_succ hm)] at h
  cases h

/-- The line of an error is the cursor's line before the gap, and its offset the
    cursor's offset behind it. -/
theorem lineOfError_of_readingAt {source : String} {n : Nat} {e : LexicalError}
    (h : readingAt source n = .error e) : LineOfError source n e := by
  have hbefore := read?_ne_none_of_error h
  have hwithin := within_after source n
  have hread := read?_after hbefore (Nat.lt_succ_self n)
  rw [h] at hread
  have hoffset : e.offset = ((Cursor.start source).after n).skipGap.offset := by
    have hrange := rangeAt_eq hbefore (Nat.lt_succ_self n)
    rw [rangeAt, h] at hrange
    exact congrArg Span.start hrange
  have hline : e.line = ((Cursor.start source).after n).line := by
    rcases read?_eq_some hread with ⟨_, _, _, ⟨_, _, hreading⟩ | ⟨_, _, hreading⟩⟩
    · cases hreading
    · cases hreading
      rfl
  have hcounted : e.line = 1 + lineFeedsBefore source (endOfFirst source n) := by
    rw [hline, endOfFirst_eq hbefore (Nat.le_succ n)]
    exact counted_after source n
  have hgap : lineFeeds (gapBefore source n) =
      Text.breaks (gap ((Cursor.start source).after n).rest).1 := by
    have htext := textBetween_pass hwithin (gap_append _).symm
    rw [gapBefore, endOfFirst_eq hbefore (Nat.le_succ n), rangeAt_eq hbefore (Nat.lt_succ_self n),
      Cursor.skipGap, htext, lineFeeds_eq, String.toList_ofList]
  have hlag : e.line + lineFeeds (gapBefore source n) = 1 + lineFeedsBefore source e.offset := by
    have hpass := lineFeedsBefore_pass hwithin (gap_append _).symm
    rw [hcounted, endOfFirst_eq hbefore (Nat.le_succ n), hgap, hoffset, Cursor.skipGap, hpass,
      Nat.add_assoc]
  refine ⟨hcounted, hlag, ?_⟩
  rw [← breaks_eq_zero_iff, ← lineFeeds_eq]
  omega

/-! ### Errors that are reported -/

/-- The error that ends a scan is one of the readings. -/
theorem exists_readingAt_of_scan {cursor : Cursor} {e : LexicalError}
    (h : cursor.scan.ending = .error e) : ∃ n, (cursor.after n).next.1 = .error e := by
  fun_induction Cursor.readings cursor with
  | case1 cursor hread =>
      rw [scan_of_none hread] at h
      cases h
  | case2 cursor reading next hread later finish hlater ih =>
      cases reading with
      | error fault =>
          rw [scan_of_error hread] at h
          cases h
          refine ⟨0, ?_⟩
          rw [show cursor.after 0 = cursor from rfl, next_of_some hread]
      | ok lexeme =>
          rw [scan_of_ok hread] at h
          rcases ih h with ⟨n, hn⟩
          refine ⟨n + 1, ?_⟩
          rw [after_of_read? hread]
          exact hn

/-- Every lexical error of a source is a reading of it, be it the next one of a
    cursor, the one that ends the scan, or the one that a parser reports. Its
    line is the one on which the text before it ends, which is the line it stands
    on exactly if no line feed lies between. -/
theorem error_line_lags (source : String) (e : LexicalError) :
    (∀ n, readingAt source n = .error e → LineOfError source n e) ∧
    (tokenize source = .error e → ∃ n, readingAt source n = .error e ∧ LineOfError source n e) ∧
    (parse source = .error (.lexical e) →
      ∃ n, readingAt source n = .error e ∧ LineOfError source n e) := by
  have htokenize : tokenize source = .error e →
      ∃ n, readingAt source n = .error e ∧ LineOfError source n e := by
    intro h
    rcases exists_readingAt_of_scan (tokenize_eq_error.mp h) with ⟨n, hn⟩
    exact ⟨n, hn, lineOfError_of_readingAt hn⟩
  exact ⟨fun n => lineOfError_of_readingAt, htokenize,
    fun h => htokenize (tokenize_of_lexical h)⟩

/-- A character at fault on the third line. A comment and a line feed stand
    before it. -/
def belatedSource : String := "x /*\n*/\n$"

/-- Whoever reads it reports it on the first line. -/
theorem error_reported_above_its_line :
    tokenize belatedSource = .error ⟨.unrecognizedCharacter, "$", 8, 1⟩ ∧
      parse belatedSource = .error (.lexical ⟨.unrecognizedCharacter, "$", 8, 1⟩) ∧
      1 + lineFeedsBefore belatedSource 8 = 3 := by
  have hreport : (match parse belatedSource with
      | .error (.lexical e) => some e
      | _ => none) = some ⟨.unrecognizedCharacter, "$", 8, 1⟩ := by
    decide +kernel
  refine ⟨by decide +kernel, ?_, by decide +kernel⟩
  split at hreport
  · rename_i e hparse
    rw [hparse, Option.some.inj hreport]
  · cases hreport

theorem error_line_lags_belatedSource :
    ∃ n e, tokenize belatedSource = .error e ∧ e.line = 1 ∧
      readingAt belatedSource n = .error e ∧ LineOfError belatedSource n e := by
  have htokens : tokenize belatedSource = .error ⟨.unrecognizedCharacter, "$", 8, 1⟩ := by
    decide +kernel
  rcases (error_line_lags belatedSource _).2.1 htokens with ⟨n, hn, hline⟩
  exact ⟨n, _, htokens, rfl, hn, hline⟩

end Scriptlet
