import Scriptlet.Proofs.Lexeme.Lines
import Scriptlet.Proofs.Lexeme.LongestMatch
import Scriptlet.Proofs.Lexeme.Rendering

/-!
# Texts Joined by a Gap

Two texts with a gap between them are read as if each stood alone. The lexemes
of the first are the same, because nothing that starts a gap goes on with a
token. The lexemes of the second are only further on, by the bytes and the line
feeds of what stands before them, because a cursor knows nothing else of the
text that it has passed.

An error in the first text is the same too, if it is one that takes a limited
piece of text. A literal or a comment that is not closed takes all there is, and
what comes behind it may close it. An error in the second text is further on
like a lexeme. Only its line may be another one if there is no lexeme before it,
since that line is counted from the text in front of the gap.

## Main definitions

* `Lexeme.shift`, `LexicalError.shift`, `Cursor.shift`: The same, further on.
* `Cursor.extend`: The same place in a longer source.
* `LexicalFault.Confined`: A fault that takes a limited piece of text.

## Theorems

* `scan?_extend`: What a scan takes does not depend on parted text behind it.
* `read?_extend`, `scan_extend`: The same for one reading and for all of them.
* `read?_of_isGap`, `scan_of_isGap_append`: A gap that is passed beforehand.
* `read?_shift`, `scan_shift`: A cursor that is further on.
* `ofSource_joined`: Two texts joined by any gap.
* `tokenize_joined`: Two texts joined by blanks.
-/

namespace Scriptlet

/-- A lexeme as it is some bytes and lines further on. -/
def Lexeme.shift (bytes lines : Nat) (lexeme : Lexeme) : Lexeme :=
  { token := lexeme.token
    span := ⟨bytes + lexeme.span.start, bytes + lexeme.span.stop⟩
    line := lines + lexeme.line }

/-- An error as it is some bytes and lines further on. -/
def LexicalError.shift (bytes lines : Nat) (e : LexicalError) : LexicalError :=
  { e with offset := bytes + e.offset, line := lines + e.line }

/-- A fault that takes a limited piece of text, whatever comes behind. -/
def LexicalFault.Confined (fault : LexicalFault) : Prop :=
  fault = .unrecognizedCharacter ∨ fault = .integerOverflow ∨ fault = .floatLiteral

namespace Cursor

/-- A cursor as it is some bytes and lines further on. -/
def shift (bytes lines : Nat) (cursor : Cursor) : Cursor :=
  { cursor with offset := bytes + cursor.offset, line := lines + cursor.line }

/-- The same place in a source that goes on with `tail`. -/
def extend (tail : List Char) (cursor : Cursor) : Cursor :=
  { cursor with rest := cursor.rest ++ tail }

end Cursor

/-! ### Text behind a scan -/

section Extend

variable {tail : List Char}

theorem Parted.stops_isDigit (h : Parted tail) : Stops (·.isDigit = true) tail :=
  fun c hhead hdigit => h.stops c hhead (isWordPart_of_isDigit hdigit)

/-- A run of characters of one kind is the same if another kind goes on behind
    the text. -/
theorem takeWhile_extend {p : Char → Bool} (htail : Stops (p · = true) tail) (text : List Char) :
    (text ++ tail).takeWhile p = text.takeWhile p ∧
      (text ++ tail).dropWhile p = text.dropWhile p ++ tail := by
  have hrun : ∀ c ∈ text.takeWhile p, p c = true := List.all_eq_true.mp List.all_takeWhile
  have hstop : Stops (p · = true) (text.dropWhile p ++ tail) := by
    intro c hhead hc
    cases hrest : text.dropWhile p with
    | nil =>
        rw [hrest, List.nil_append] at hhead
        exact htail c hhead hc
    | cons d rest =>
        rw [hrest] at hhead
        cases hhead
        have hfirst := List.head?_dropWhile_not p text
        rw [hrest] at hfirst
        simp only [List.head?_cons] at hfirst
        rw [hc] at hfirst
        cases hfirst
  have hsplit := takeWhile_run hrun hstop
  rwa [← List.append_assoc, List.takeWhile_append_dropWhile] at hsplit

theorem scanNumber_extend (htail : Parted tail) (text : List Char) :
    scanNumber (text ++ tail) =
      { scanNumber text with rest := (scanNumber text).rest ++ tail } := by
  have hwhole := takeWhile_extend htail.stops_isDigit text
  rw [scanNumber, scanNumber, hwhole.1, hwhole.2]
  cases hrest : text.dropWhile Char.isDigit with
  | nil =>
      -- No point starts the tail, so the digits are an integer as before.
      have hpoint := htail.head?_ne (c := '.') (by decide) (by decide)
      rw [List.nil_append]
      split
      · exact absurd rfl hpoint
      · rfl
  | cons c rest =>
      rw [List.cons_append]
      by_cases hc : c = '.'
      · subst hc
        have hpart := takeWhile_extend htail.stops_isDigit rest
        simp only [hpart.1, hpart.2]
      · split
        · rename_i heq
          exact absurd (List.cons.inj heq).1 hc
        · split
          · rename_i heq
            exact absurd (List.cons.inj heq).1 hc
          · rfl

theorem scanWord_extend (htail : Parted tail) (text : List Char) :
    scanWord (text ++ tail) = { scanWord text with rest := (scanWord text).rest ++ tail } := by
  have hword := takeWhile_extend htail.stops text
  rw [scanWord, scanWord, hword.1, hword.2]

theorem scanString_extend {text : List Char}
    (h : (scanString text).outcome ≠ .error .unterminatedString) :
    scanString (text ++ tail) =
      { scanString text with rest := (scanString text).rest ++ tail } := by
  cases hsplit : Text.Quoted.split? text with
  | none =>
      rw [scanString, hsplit] at h
      exact absurd rfl h
  | some division =>
      rcases division with ⟨body, after⟩
      -- The quote that closes the literal is the first one in the longer text too.
      have hlonger : Text.Quoted.split? (text ++ tail) = some (body, after ++ tail) := by
        rw [Text.Quoted.split?_eq_some hsplit, List.append_assoc, List.cons_append]
        exact Text.Quoted.split?_append (Text.Quoted.isBody_of_split? hsplit) (after ++ tail)
      rw [scanString, scanString, hsplit, hlonger]

/-- Text that does not go on with a star does so neither if it is longer. -/
theorem Parted.head?_append_ne (h : Parted tail) {rest : List Char}
    (hrest : rest.head? ≠ some '*') : (rest ++ tail).head? ≠ some '*' := by
  cases rest with
  | nil => exact h.head?_ne (by decide) (by decide)
  | cons c rest => exact hrest

/-- What a scan takes is the same if the text goes on with something parted from
    it, unless it takes all there is. -/
theorem scan?_extend (htail : Parted tail) {text : List Char} {scanned : Scanned}
    (h : scan? text = some scanned)
    (hconfined : ∀ fault, scanned.outcome = .error fault → fault.Confined) :
    scan? (text ++ tail) = some { scanned with rest := scanned.rest ++ tail } := by
  cases text with
  | nil => cases h
  | cons c rest =>
      rw [List.cons_append]
      rw [scan?] at h ⊢
      -- The rule of the table that applies is the same one for the longer text.
      by_cases hdigit : c.isDigit = true
      · rw [if_pos hdigit] at h ⊢
        cases h
        rw [← List.cons_append, scanNumber_extend htail]
      rw [if_neg hdigit] at h ⊢
      by_cases hstart : isWordStart c = true
      · rw [if_pos hstart] at h ⊢
        cases h
        rw [← List.cons_append, scanWord_extend htail]
      rw [if_neg hstart] at h ⊢
      by_cases hquote : c = '"'
      · rw [if_pos hquote] at h ⊢
        cases h
        have hclosed : (scanString rest).outcome ≠ .error .unterminatedString := by
          intro hopen
          simpa only [LexicalFault.Confined, reduceCtorEq, or_self] using hconfined _ hopen
        rw [scanString_extend hclosed]
      rw [if_neg hquote] at h ⊢
      by_cases hcomment : c = '/' ∧ rest.head? = some '*'
      · rw [if_pos hcomment] at h
        cases h
        simpa only [LexicalFault.Confined, reduceCtorEq, or_self] using hconfined _ rfl
      have hsame : ¬ (c = '/' ∧ (rest ++ tail).head? = some '*') := fun hopen =>
        htail.head?_append_ne (fun hstar => hcomment ⟨hopen.1, hstar⟩) hopen.2
      rw [if_neg hcomment] at h
      rw [if_neg hsame]
      cases hmark : Mark.ofChar? c with
      | some mark =>
          rw [hmark] at h
          cases h
          rfl
      | none =>
          rw [hmark] at h
          cases h
          rfl

/-- Where a scan takes a limited piece of text, no gap starts if the text goes
    on. -/
theorem solid_extend (htail : Parted tail) {text : List Char} {scanned : Scanned}
    (hsolid : Solid text) (h : scan? text = some scanned)
    (hconfined : ∀ fault, scanned.outcome = .error fault → fault.Confined) :
    Solid (text ++ tail) := by
  cases text with
  | nil => cases h
  | cons c rest =>
      refine solid_cons (Bool.eq_false_iff.mpr (not_isBlank_of_solid hsolid)) ?_
      rintro rfl
      refine htail.head?_append_ne fun hstar => ?_
      have hopen : scanned.outcome = .error .unterminatedComment := by
        rw [scan?, if_neg (by decide), if_neg (by decide), if_neg (by decide),
          if_pos ⟨rfl, hstar⟩] at h
        cases h
        rfl
      simpa only [LexicalFault.Confined, reduceCtorEq, or_self] using hconfined _ hopen

/-! ### Text behind a reading -/

theorem skipGap_extend {cursor : Cursor} (h : Solid ((gap cursor.rest).2 ++ tail)) :
    (cursor.extend tail).skipGap = cursor.skipGap.extend tail := by
  have hgap : gap (cursor.rest ++ tail) = ((gap cursor.rest).1, (gap cursor.rest).2 ++ tail) := by
    conv => lhs; rw [← gap_append cursor.rest, List.append_assoc]
    exact gap_append_solid (isGap_gap cursor.rest) h
  simp only [Cursor.skipGap, Cursor.extend, hgap, Cursor.pass]

/-- One reading is the same if the source goes on with something parted from
    it. -/
theorem read?_extend (htail : Parted tail) {cursor after : Cursor}
    {reading : Except LexicalError Lexeme} (h : cursor.read? = some (reading, after))
    (hconfined : ∀ e, reading = .error e → e.fault.Confined) :
    (cursor.extend tail).read? = some (reading, after.extend tail) := by
  rcases read?_eq_some h with ⟨scanned, hscan, rfl, hreading⟩
  have houtcome : ∀ fault, scanned.outcome = .error fault → fault.Confined := by
    intro fault hfault
    rcases hreading with ⟨token, htoken, _⟩ | ⟨fault', hfault', rfl⟩
    · rw [hfault] at htoken
      cases htoken
    · rw [hfault] at hfault'
      cases hfault'
      exact hconfined _ rfl
  have hskip := skipGap_extend (solid_extend htail (solid_gap cursor.rest) hscan houtcome)
  have hlonger : scan? (cursor.skipGap.rest ++ tail) = _ := scan?_extend htail hscan houtcome
  rw [read?_eq, hskip]
  simp only [Cursor.extend, hlonger, Option.map_some, Cursor.taking]
  rw [← Cursor.extend, hskip]
  rcases hreading with ⟨token, htoken, rfl⟩ | ⟨fault, hfault, rfl⟩
  · simp only [htoken]
    rfl
  · simp only [hfault]
    rfl

/-- The place behind all the text ahead. -/
def Cursor.finish (cursor : Cursor) : Cursor := cursor.pass cursor.rest []

theorem finish_pass {cursor : Cursor} {text rest : List Char} (h : cursor.rest = text ++ rest) :
    (cursor.pass text rest).finish = cursor.finish := by
  simp only [Cursor.finish, Cursor.pass, h, Text.width_append, Text.breaks_append, Nat.add_assoc]

/-- Reading does not move the end. -/
theorem finish_of_read? {cursor after : Cursor} {reading : Except LexicalError Lexeme}
    (h : cursor.read? = some (reading, after)) : after.finish = cursor.finish := by
  rcases read?_eq_some h with ⟨scanned, hscan, rfl, -⟩
  rw [finish_pass (scan?_append hscan).symm]
  exact finish_pass (gap_append cursor.rest).symm

/-- All readings are the same if the source goes on with something parted from
    it. Where the source had its end, the reader has only a gap before what is
    new. -/
theorem scan_extend (htail : Parted tail) (cursor : Cursor) :
    (∀ e, cursor.scan.ending = .error e → e.fault.Confined →
      (cursor.extend tail).scan = cursor.scan) ∧
    (∀ eof, cursor.scan.ending = .ok eof →
      ∃ last : Cursor, IsGap last.rest ∧ last.finish = cursor.finish ∧
        (cursor.extend tail).scan =
          { (last.extend tail).scan with
            lexemes := cursor.scan.lexemes ++ (last.extend tail).scan.lexemes }) := by
  fun_induction Cursor.readings cursor with
  | case1 cursor hread =>
      have hgap : IsGap cursor.rest := by
        have hfound := isGap_gap cursor.rest
        have hnone : (gap cursor.rest).2 = [] := read?_eq_none.mp hread
        rwa [← List.append_nil (gap cursor.rest).1, ← hnone, gap_append] at hfound
      rw [scan_of_none hread]
      refine ⟨fun e he => ?_, fun eof _ => ⟨cursor, hgap, rfl, ?_⟩⟩
      · cases he
      · rw [List.nil_append]
  | case2 cursor reading next hread later finish hlater ih =>
      cases reading with
      | error fault =>
          rw [scan_of_error hread]
          refine ⟨fun e he hconfined => ?_, fun eof heof => ?_⟩
          · cases he
            exact scan_of_error (read?_extend htail hread fun e he => by cases he; exact hconfined)
          · cases heof
      | ok lexeme =>
          have hlonger := read?_extend htail hread fun e he => by cases he
          rw [scan_of_ok hread, scan_of_ok hlonger]
          refine ⟨fun e he hconfined => ?_, fun eof heof => ?_⟩
          · rw [ih.1 e he hconfined]
          · rcases ih.2 eof heof with ⟨last, hgap, hfinish, hscan⟩
            refine ⟨last, hgap, hfinish.trans (finish_of_read? hread), ?_⟩
            rw [hscan, List.cons_append]

end Extend

/-! ### Text before a reading -/

/-- A gap that is passed beforehand makes no difference to a reading but for the
    line of an error, which is that of the cursor. -/
theorem read?_of_isGap {cursor : Cursor} {skipped text : List Char} (h : IsGap skipped)
    (hrest : cursor.rest = skipped ++ text) :
    cursor.read? = (cursor.pass skipped text).read?.map
      (Prod.map (Except.mapError fun e => { e with line := cursor.line }) id) := by
  rw [read?_eq, read?_eq, Cursor.skipGap_pass h hrest, Option.map_map]
  congr 1
  funext scanned
  simp only [Function.comp_apply, Cursor.taking, Cursor.skipGap_pass h hrest]
  cases scanned.outcome <;> rfl

/-- A gap that is passed beforehand makes no difference to the lexemes, and none
    to the ending but for the line of an error. -/
theorem scan_of_isGap_append {cursor : Cursor} {skipped text : List Char} (h : IsGap skipped)
    (hrest : cursor.rest = skipped ++ text) :
    cursor.scan.lexemes = (cursor.pass skipped text).scan.lexemes ∧
      ∃ line, cursor.scan.ending =
        (cursor.pass skipped text).scan.ending.mapError fun e => { e with line := line } := by
  have hread := read?_of_isGap h hrest
  cases hpassed : (cursor.pass skipped text).read? with
  | none =>
      rw [hpassed] at hread
      rw [scan_of_none hread, scan_of_none hpassed, Cursor.skipGap_pass h hrest]
      exact ⟨rfl, 0, rfl⟩
  | some pair =>
      rcases pair with ⟨reading, after⟩
      rw [hpassed] at hread
      cases reading with
      | error e =>
          rw [scan_of_error hread, scan_of_error hpassed]
          exact ⟨rfl, cursor.line, rfl⟩
      | ok lexeme =>
          -- The first reading is the same, and the others are of the same cursor.
          rw [scan_of_ok hread, scan_of_ok hpassed]
          refine ⟨rfl, ?_⟩
          cases hending : after.scan.ending with
          | ok eof => exact ⟨0, hending⟩
          | error e => exact ⟨e.line, hending⟩

/-! ### Places further on -/

theorem skipGap_shift (bytes lines : Nat) (cursor : Cursor) :
    (cursor.shift bytes lines).skipGap = cursor.skipGap.shift bytes lines := by
  simp only [Cursor.skipGap, Cursor.shift, Cursor.pass, Nat.add_assoc]

/-- A reading as it is some bytes and lines further on. -/
def shiftReading (bytes lines : Nat) (reading : Except LexicalError Lexeme) :
    Except LexicalError Lexeme :=
  (reading.map (Lexeme.shift bytes lines)).mapError (LexicalError.shift bytes lines)

theorem read?_shift (bytes lines : Nat) (cursor : Cursor) :
    (cursor.shift bytes lines).read? =
      cursor.read?.map (Prod.map (shiftReading bytes lines) (Cursor.shift bytes lines)) := by
  rw [read?_eq, read?_eq, skipGap_shift, Option.map_map]
  change (scan? cursor.skipGap.rest).map _ = _
  congr 1
  funext scanned
  have hpass : (cursor.skipGap.shift bytes lines).pass scanned.text scanned.rest =
      (cursor.skipGap.pass scanned.text scanned.rest).shift bytes lines := by
    simp only [Cursor.shift, Cursor.pass, Nat.add_assoc]
  rw [Function.comp_apply, Cursor.taking, Cursor.taking, skipGap_shift, hpass]
  cases scanned.outcome <;> rfl

/-- All readings of a cursor that is further on are further on. -/
theorem scan_shift (bytes lines : Nat) (cursor : Cursor) :
    (cursor.shift bytes lines).scan =
      { lexemes := cursor.scan.lexemes.map (Lexeme.shift bytes lines)
        ending := shiftReading bytes lines cursor.scan.ending } := by
  fun_induction Cursor.readings cursor with
  | case1 cursor hread =>
      have hshift := read?_shift bytes lines cursor
      rw [hread] at hshift
      rw [scan_of_none hread, scan_of_none hshift, skipGap_shift]
      rfl
  | case2 cursor reading next hread later finish hlater ih =>
      have hshift := read?_shift bytes lines cursor
      rw [hread] at hshift
      cases reading with
      | error e =>
          rw [scan_of_error hread, scan_of_error hshift]
          rfl
      | ok lexeme =>
          rw [scan_of_ok hread, scan_of_ok hshift, ih]
          rfl

/-! ### Sources -/

section Sources

variable {a w b : String}

/-- The place behind a text and a gap is the front of the second text, further
    on by what stands before it. -/
theorem pass_eq_shift {last : Cursor} (hfinish : last.finish = (Cursor.start a).finish) :
    (last.extend (w ++ b).toList).pass (last.rest ++ w.toList) b.toList =
      (Cursor.start b).shift (a ++ w).utf8ByteSize (lineFeeds (a ++ w)) := by
  have hoffset := congrArg Cursor.offset hfinish
  have hline := congrArg Cursor.line hfinish
  simp only [Cursor.finish, Cursor.pass, Cursor.start] at hoffset hline
  simp only [Cursor.extend, Cursor.pass, Cursor.shift, Cursor.start, Text.width_append,
    Text.breaks_append, ← width_toList, lineFeeds_eq, String.toList_append, Cursor.mk.injEq,
    true_and]
  omega

/-- Joined by a gap that is not empty, two texts are read as if each stood
    alone, the second further on by what stands before it. -/
theorem ofSource_joined (hgap : IsGap w.toList) (hsome : w ≠ "") :
    (∀ e, (Scan.ofSource a).ending = .error e → e.fault.Confined →
      Scan.ofSource (a ++ w ++ b) = Scan.ofSource a) ∧
    (∀ eof, (Scan.ofSource a).ending = .ok eof →
      (Scan.ofSource (a ++ w ++ b)).lexemes = (Scan.ofSource a).lexemes ++
        (Scan.ofSource b).lexemes.map (Lexeme.shift (a ++ w).utf8ByteSize (lineFeeds (a ++ w))) ∧
      ∃ line, (Scan.ofSource (a ++ w ++ b)).ending =
        (shiftReading (a ++ w).utf8ByteSize (lineFeeds (a ++ w)) (Scan.ofSource b).ending).mapError
          fun e => { e with line := line }) := by
  have hnonempty : w.toList ≠ [] := fun hnil => hsome (String.toList_eq_nil_iff.mp hnil)
  have hparted : Parted (w ++ b).toList := by
    rw [String.toList_append]
    exact parted_of_isGap hgap hnonempty b.toList
  have hsource : Cursor.start (a ++ w ++ b) = (Cursor.start a).extend (w ++ b).toList := by
    simp only [Cursor.start, Cursor.extend, String.toList_append, List.append_assoc]
  have hscan := scan_extend hparted (Cursor.start a)
  rw [← hsource] at hscan
  refine ⟨hscan.1, fun eof heof => ?_⟩
  rcases hscan.2 eof heof with ⟨last, hlast, hfinish, hjoined⟩
  have hrest : (last.extend (w ++ b).toList).rest = (last.rest ++ w.toList) ++ b.toList := by
    simp only [Cursor.extend, String.toList_append, List.append_assoc]
  have hsecond := scan_of_isGap_append (isGap_append hlast hgap) hrest
  rw [pass_eq_shift hfinish, scan_shift] at hsecond
  rcases hsecond with ⟨hlexemes, line, hending⟩
  refine ⟨?_, line, ?_⟩
  · exact (congrArg Scan.lexemes hjoined).trans (congrArg _ hlexemes)
  · exact (congrArg Scan.ending hjoined).trans hending

end Sources

/-- Two texts with blanks between them have the lexemes of the first and then
    those of the second, further on by the bytes and the line feeds of what
    stands before them. If only the second is at fault, then its error is that
    much further on; and an error of the first that takes a limited piece of text
    is the error of the whole. -/
theorem tokenize_joined (a w b : String) (hsome : w ≠ "")
    (hblank : ∀ c ∈ w.toList, Text.isBlank c = true) :
    (∀ first second, tokenize a = .ok first → tokenize b = .ok second →
      tokenize (a ++ w ++ b) =
        .ok (first ++ second.map (Lexeme.shift (a ++ w).utf8ByteSize (lineFeeds (a ++ w))))) ∧
    (∀ first e, tokenize a = .ok first → tokenize b = .error e →
      ∃ line, tokenize (a ++ w ++ b) =
        .error ⟨e.fault, e.fragment, (a ++ w).utf8ByteSize + e.offset, line⟩) ∧
    (∀ e, tokenize a = .error e →
      e.fault = .unrecognizedCharacter ∨ e.fault = .integerOverflow ∨ e.fault = .floatLiteral →
      tokenize (a ++ w ++ b) = .error e) := by
  have hjoined := @ofSource_joined a w b (isGap_of_blank hblank) hsome
  refine ⟨fun first second ha hb => ?_, fun first e ha hb => ?_, fun e ha hconfined => ?_⟩
  · rcases tokenize_eq_ok.mp ha with ⟨_, hfirst, rfl⟩
    rcases tokenize_eq_ok.mp hb with ⟨_, hsecond, rfl⟩
    rcases hjoined.2 _ hfirst with ⟨hlexemes, line, hending⟩
    rw [hsecond] at hending
    exact tokenize_eq_ok.mpr ⟨_, hending, hlexemes⟩
  · rcases tokenize_eq_ok.mp ha with ⟨_, hfirst, rfl⟩
    rcases hjoined.2 _ hfirst with ⟨_, line, hending⟩
    rw [tokenize_eq_error.mp hb] at hending
    exact ⟨line, tokenize_eq_error.mpr hending⟩
  · have hfirst := tokenize_eq_error.mp ha
    rw [tokenize_eq_error, hjoined.1 e hfirst hconfined, hfirst]

/-- With a line feed between them, a slash and a star do not open a comment, a
    literal is at fault where it stands, and a number with a point is at fault as
    it was. -/
theorem tokenize_joined_lineFeed :
    "\n" ≠ "" ∧ (∀ c ∈ "\n".toList, Text.isBlank c = true) ∧
      tokenize ("1/" ++ "\n" ++ "*2") =
        .ok [⟨.integer 1, ⟨0, 1⟩, 1⟩, ⟨.mark .slash, ⟨1, 2⟩, 1⟩, ⟨.mark .star, ⟨3, 4⟩, 2⟩,
          ⟨.integer 2, ⟨4, 5⟩, 2⟩] ∧
      (∃ line, tokenize ("1/" ++ "\n" ++ "\"2") =
        .error ⟨.unterminatedString, "\"2", 3, line⟩) ∧
      tokenize ("1." ++ "\n" ++ "2") = .error ⟨.floatLiteral, "1.", 0, 1⟩ := by
  have hsome : "\n" ≠ "" := by decide
  have hblank : ∀ c ∈ "\n".toList, Text.isBlank c = true := List.all_eq_true.mp (by decide)
  have hfirst : tokenize "1/" = .ok [⟨.integer 1, ⟨0, 1⟩, 1⟩, ⟨.mark .slash, ⟨1, 2⟩, 1⟩] := by
    decide +kernel
  refine ⟨hsome, hblank, ?_, ?_, ?_⟩
  · have hsecond : tokenize "*2" = .ok [⟨.mark .star, ⟨0, 1⟩, 1⟩, ⟨.integer 2, ⟨1, 2⟩, 1⟩] := by
      decide +kernel
    exact (tokenize_joined _ _ _ hsome hblank).1 _ _ hfirst hsecond
  · have hsecond : tokenize "\"2" = .error ⟨.unterminatedString, "\"2", 0, 1⟩ := by
      decide +kernel
    exact (tokenize_joined _ _ _ hsome hblank).2.1 _ _ hfirst hsecond
  · have hfault : tokenize "1." = .error ⟨.floatLiteral, "1.", 0, 1⟩ := by
      decide +kernel
    exact (tokenize_joined _ _ _ hsome hblank).2.2 _ hfault (Or.inr (Or.inr rfl))

end Scriptlet
