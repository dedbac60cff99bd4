import Mathlib.Data.Nat.Digits.Defs
import Mathlib.Data.Nat.Find
import Scriptlet.Proofs.Lexeme.Readings

/-!
# The Longest Match

The lexer read as a table of rules, each with the texts that it matches and
with what it makes of a match. Behind the longest gap, the rule with the longest
match decides. The rule for words leaves to the other rules what they match as
well, so a word is a name only if the whole of it is not reserved. A text that
no rule matches is at fault with its first character.

The table says nothing on how a match is found. A rule may go on behind its
match: a quote is matched alone, and then text is taken up to the quote that
closes it; and the opening mark of a comment is matched alone, but behind a gap
the comment has no end, so the rest of the source is taken.

To decide what a rule that wins produces it is enough to look one character
beyond its match. Were that character of the right kind, then the rule itself or
one other rule would have matched more. So no rule has to be compared with all
the others, and that some rule wins where any rule matches follows from lengths
alone.

## Main definitions

* `Rule`, `Rule.Matches`, `Rule.Produces`: The table.
* `Rule.Wins`: A rule has the longest match and is preferred.
* `LongestGap`: The longest gap at the front of a text.
* `Cursor.Gives`, `Cursor.Applies`: A reading gives an outcome, and it gives
  what a rule produces.
* `Cursor.LongestMatch`: A reading gives what the longest match produces.

## Theorems

* `exists_wins`: Where a rule matches, some rule wins.
* `scans_of_wins`: A scan gives what the rule that wins produces.
* `scan?_unrecognized`: Where no rule matches, a scan takes one character.
* `reads_longest_match`: Every reading is a longest match.
-/

namespace Scriptlet

/-! ### The rules -/

/-- A rule of the lexer. -/
inductive Rule where
  | integer
  | fraction
  | quote
  | comment
  | lineBreak
  | blanks
  | word
  | reserved (spelling : String)
  | mark (mark : Mark)

/-- A text of digits. -/
def IsDigits (text : List Char) : Prop := ∀ c ∈ text, c.isDigit = true

/-- The texts that a rule matches. -/
def Rule.Matches : Rule → List Char → Prop
  | .integer, text => text ≠ [] ∧ IsDigits text
  | .fraction, text =>
    ∃ whole part, text = whole ++ '.' :: part ∧ whole ≠ [] ∧ IsDigits whole ∧ IsDigits part
  | .quote, text => text = ['"']
  | .comment, text => text = ['/', '*']
  | .lineBreak, text => text = ['\n']
  | .blanks, text => text ≠ [] ∧ ∀ c ∈ text, Text.isBlank c = true ∧ c ≠ '\n'
  | .word, text => IsNameShaped text
  | .reserved spelling, text => spelling ∈ reservedWords ∧ text = spelling.toList
  | .mark m, text => text = [m.char]

/-- A rule wins at the front of a text: none matches more of it, and the rule
    for words leaves what another rule matches to that one. -/
structure Rule.Wins (rule : Rule) (text ahead : List Char) : Prop where
  front : text <+: ahead
  matched : rule.Matches text
  longest : ∀ (other : Rule) (longer : List Char), longer <+: ahead → other.Matches longer →
    longer.length ≤ text.length
  preferred : rule = .word → ∀ other : Rule, other.Matches text → other = .word

/-- The words with a token of their own, and the tokens. -/
def reservedTokens : List (String × Token) :=
  [("if", .keyword .cond), ("else", .keyword .alternative), ("print", .keyword .print),
    ("func", .keyword .func), ("True", .bool true), ("False", .bool false), ("int", .ty .int),
    ("float", .ty .float), ("str", .ty .str), ("bool", .ty .bool)]

/-- The number that a text of digits writes, each digit counting for its place. -/
def writtenNumber (digits : List Char) : Nat :=
  Nat.ofDigits 10 (digits.map fun c => c.toNat - '0'.toNat).reverse

/-- A text that does not close the quote in front of it. A quote may stand in
    it only behind a backslash, and what stands behind a backslash is passed. -/
inductive Text.Quoted.IsBody : List Char → Prop where
  | nil : IsBody []
  | plain {c : Char} {text : List Char} (quote : c ≠ '"') (slash : c ≠ '\\')
      (rest : IsBody text) : IsBody (c :: text)
  | pair (c : Char) {text : List Char} (rest : IsBody text) : IsBody ('\\' :: c :: text)

/-- What a rule makes of a match and of the text after it: a token or a fault,
    and the text that is taken for it. -/
inductive Rule.Produces :
    Rule → List Char → List Char → Except LexicalFault Token → List Char → Prop where
  | integer {digits after : List Char} {value : Int64}
      (written : value.toInt = writtenNumber digits) :
      Produces .integer digits after (.ok (.integer value)) digits
  | overflow {digits after : List Char}
      (large : Int64.maxValue.toInt < writtenNumber digits) :
      Produces .integer digits after (.error .integerOverflow) digits
  | fraction {text after : List Char} :
      Produces .fraction text after (.error .floatLiteral) text
  | string {body behind : List Char} (closed : Text.Quoted.IsBody body) :
      Produces .quote ['"'] (body ++ '"' :: behind)
        (.ok (.string (String.ofList (Text.Quoted.decode body)))) ('"' :: (body ++ ['"']))
  | unterminatedString {after : List Char}
      (unclosed : ∀ body behind, Text.Quoted.IsBody body → after ≠ body ++ '"' :: behind) :
      Produces .quote ['"'] after (.error .unterminatedString) ('"' :: after)
  | unterminatedComment {after : List Char} (unclosed : ¬ ['*', '/'] <:+: after) :
      Produces .comment ['/', '*'] after (.error .unterminatedComment) ('/' :: '*' :: after)
  | name {text after : List Char} :
      Produces .word text after (.ok (.name (String.ofList text))) text
  | reserved {spelling : String} {token : Token} {after : List Char}
      (entry : (spelling, token) ∈ reservedTokens) :
      Produces (.reserved spelling) spelling.toList after (.ok token) spelling.toList
  | mark {mark : Mark} {after : List Char} :
      Produces (.mark mark) [mark.char] after (.ok (.mark mark)) [mark.char]

/-! ### Winning -/

/-- A rule that wins is followed by no character with which a rule would have
    matched more. -/
theorem Rule.Wins.stops {rule : Rule} {text after : List Char} {p : Char → Prop}
    (h : rule.Wins text (text ++ after)) (other : Rule)
    (hmore : ∀ c, p c → other.Matches (text ++ [c])) : Stops p after := by
  intro c hhead hc
  cases after with
  | nil => cases hhead
  | cons d rest =>
      cases hhead
      have hfront : text ++ [c] <+: text ++ c :: rest := ⟨rest, by simp⟩
      have hlength := h.longest other (text ++ [c]) hfront (hmore c hc)
      rw [List.length_append, List.length_singleton] at hlength
      omega

/-- Where some rule matches, some rule wins. -/
theorem exists_wins {rule : Rule} {text ahead : List Char} (hfront : text <+: ahead)
    (hmatch : rule.Matches text) : ∃ winner longest, Rule.Wins winner longest ahead := by
  classical
  -- Matches are not longer than the text, so some length is the greatest.
  let matched (n : Nat) : Prop :=
    ∃ (other : Rule) (found : List Char), found <+: ahead ∧ other.Matches found ∧ found.length = n
  have hsome : matched (Nat.findGreatest matched ahead.length) :=
    Nat.findGreatest_spec hfront.length_le ⟨rule, text, hfront, hmatch, rfl⟩
  rcases hsome with ⟨other, longest, hlongest, hother, hlength⟩
  have hmax : ∀ (rival : Rule) (longer : List Char), longer <+: ahead → rival.Matches longer →
      longer.length ≤ longest.length := by
    intro rival longer hlonger hrival
    rw [hlength]
    exact Nat.le_findGreatest hlonger.length_le ⟨rival, longer, hlonger, hrival, rfl⟩
  -- Of the rules with a match of that length, one that is not for words.
  by_cases hword : ∃ rival : Rule, rival.Matches longest ∧ rival ≠ .word
  · rcases hword with ⟨rival, hrival, hne⟩
    exact ⟨rival, longest, hlongest, hrival, hmax, fun heq => absurd heq hne⟩
  · refine ⟨other, longest, hlongest, hother, hmax, fun _ rival hrival => ?_⟩
    by_contra hne
    exact hword ⟨rival, hrival, hne⟩

/-! ### Numbers, words and literals -/

theorem decimalValue_eq (digits : List Char) : decimalValue digits = writtenNumber digits := by
  rw [writtenNumber, Nat.ofDigits_eq_foldr, List.foldr_reverse, List.foldl_map, decimalValue]
  congr 1
  funext value c
  rw [Nat.add_comm, Nat.cast_id]

theorem produces_integerToken (digits after : List Char) :
    Rule.integer.Produces digits after (integerToken digits) digits := by
  have hmax : Int64.maxValue.toInt = (maxInteger : Int) := rfl
  rw [integerToken]
  split
  · rename_i hle
    refine .integer ?_
    rw [Int64.toInt_ofNat_of_lt (Nat.lt_of_le_of_lt hle (by decide)), decimalValue_eq]
  · rename_i hlt
    refine .overflow ?_
    rw [hmax, ← decimalValue_eq]
    omega

theorem reserved_eq : Token.reserved = reservedTokens := rfl

namespace Text.Quoted

theorem split?_append {body : List Char} (h : IsBody body) (after : List Char) :
    split? (body ++ '"' :: after) = some (body, after) := by
  induction h with
  | nil => rfl
  | plain quote slash _ ih =>
      rw [List.cons_append, split?_cons quote slash, ih]
      rfl
  | pair c _ ih =>
      rw [List.cons_append, List.cons_append, split?, ih]
      rfl

theorem isBody_of_split? {text body after : List Char} (h : split? text = some (body, after)) :
    IsBody body := by
  fun_induction split? text generalizing body after with
  | case1 => cases h
  | case2 rest =>
      cases h
      exact .nil
  | case3 c rest ih =>
      rcases Option.map_eq_some_iff.mp h with ⟨division, hrest, hpair⟩
      cases hpair
      exact .pair c (ih hrest)
  | case4 c rest hquote hslash ih =>
      rcases Option.map_eq_some_iff.mp h with ⟨division, hrest, hpair⟩
      cases hpair
      refine .plain hquote (fun hc => ?_) (ih hrest)
      -- A backslash that opens no pair is the last character, and no quote follows.
      cases rest with
      | nil => cases hrest
      | cons d rest => exact hslash d rest hc rfl

end Text.Quoted

/-! ### What a scan gives -/

/-- A scan of a match and the text after it gives what the rule produces. -/
def Scans (rule : Rule) (text after : List Char) : Prop :=
  ∃ scanned, scan? (text ++ after) = some scanned ∧
    rule.Produces text after scanned.outcome scanned.text

theorem scans_integer {digits after : List Char} (h : Rule.integer.Matches digits)
    (hstop : Stops (·.isDigit = true) after) (hpoint : after.head? ≠ some '.') :
    Scans .integer digits after :=
  ⟨_, scan?_digits h.1 h.2 hstop hpoint, produces_integerToken digits after⟩

theorem scans_fraction {whole part after : List Char} (hsome : whole ≠ [])
    (hwhole : IsDigits whole) (hpart : IsDigits part) (hstop : Stops (·.isDigit = true) after) :
    Scans .fraction (whole ++ '.' :: part) after := by
  have hpoint : Stops (·.isDigit = true) ('.' :: (part ++ after)) := by
    intro c hhead
    cases hhead
    decide
  have hfirst := takeWhile_run hwhole hpoint
  have hsecond := takeWhile_run hpart hstop
  have hscan : scanNumber (whole ++ '.' :: (part ++ after)) =
      { outcome := .error .floatLiteral, text := whole ++ '.' :: part, rest := after } := by
    rw [scanNumber, hfirst.1, hfirst.2]
    simp only [hsecond.1, hsecond.2]
  rcases List.exists_cons_of_ne_nil hsome with ⟨c, tail, rfl⟩
  rw [List.cons_append] at hscan
  refine ⟨⟨.error .floatLiteral, c :: tail ++ '.' :: part, after⟩, ?_, .fraction⟩
  rw [List.append_assoc, List.cons_append, List.cons_append]
  rw [scan?, if_pos (hwhole c List.mem_cons_self), hscan]

theorem scans_word {word after : List Char} (h : Rule.word.Matches word)
    (hstop : Stops IsNamePart after) :
    Scans (if String.ofList word ∈ reservedWords then .reserved (String.ofList word) else .word)
      word after := by
  have hscan := scan?_word h fun c hhead hpart => hstop c hhead (isWordPart_iff.mp hpart)
  refine ⟨_, hscan, ?_⟩
  split
  · rename_i hmem
    have hentry := Token.ofWord_mem hmem
    rw [reserved_eq] at hentry
    have hproduced := @Rule.Produces.reserved _ _ after hentry
    rwa [String.toList_ofList] at hproduced
  · rename_i hfree
    rw [Token.ofWord_of_notMem hfree]
    exact .name

theorem scans_quote (after : List Char) : Scans .quote ['"'] after := by
  refine ⟨scanString after, ?_, ?_⟩
  · rw [List.singleton_append, scan?, if_neg (by decide), if_neg (by decide), if_pos rfl]
  · rw [scanString]
    split
    · rename_i body behind hsplit
      rw [Text.Quoted.split?_eq_some hsplit]
      exact .string (Text.Quoted.isBody_of_split? hsplit)
    · rename_i hsplit
      refine .unterminatedString fun body behind hbody htext => ?_
      rw [htext, Text.Quoted.split?_append hbody] at hsplit
      cases hsplit

theorem scans_comment {after : List Char} (hsolid : Solid ('/' :: '*' :: after)) :
    Scans .comment ['/', '*'] after := by
  refine ⟨⟨.error .unterminatedComment, '/' :: '*' :: after, []⟩, ?_,
    .unterminatedComment (not_closed_of_solid hsolid)⟩
  rw [List.cons_append, List.singleton_append, scan?, if_neg (by decide), if_neg (by decide),
    if_neg (by decide), if_pos ⟨rfl, rfl⟩]

theorem scans_mark {mark : Mark} {after : List Char}
    (h : mark = .slash → after.head? ≠ some '*') : Scans (.mark mark) [mark.char] after :=
  ⟨_, scan?_mark mark h, .mark⟩

theorem isDigits_concat {text : List Char} {c : Char} (h : IsDigits text)
    (hc : c.isDigit = true) : IsDigits (text ++ [c]) :=
  List.forall_mem_append.mpr ⟨h, List.forall_mem_singleton.mpr hc⟩

theorem isNameShaped_concat {text : List Char} {c : Char} (h : IsNameShaped text)
    (hc : IsNamePart c) : IsNameShaped (text ++ [c]) := by
  cases text with
  | nil => cases h
  | cons d rest =>
      exact ⟨h.1, List.forall_mem_append.mpr ⟨h.2, List.forall_mem_singleton.mpr hc⟩⟩

theorem isNameShaped_of_reserved {word : String} (h : word ∈ reservedWords) :
    IsNameShaped word.toList := by
  revert word
  decide +kernel

/-- In front of solid text, a scan gives what the rule that wins produces. -/
theorem scans_of_wins {rule : Rule} {text after : List Char} (hsolid : Solid (text ++ after))
    (h : rule.Wins text (text ++ after)) : Scans rule text after := by
  have hmatch := h.matched
  cases rule with
  | integer =>
      -- One digit more would be a longer integer, and a point a fraction.
      have hstop : Stops (·.isDigit = true) after :=
        h.stops .integer fun c hc => ⟨by simp, isDigits_concat hmatch.2 hc⟩
      have hpoint : Stops (· = '.') after := by
        refine h.stops .fraction ?_
        rintro c rfl
        exact ⟨text, [], rfl, hmatch.1, hmatch.2, fun d hd => absurd hd List.not_mem_nil⟩
      exact scans_integer hmatch hstop fun hhead => hpoint '.' hhead rfl
  | fraction =>
      rcases hmatch with ⟨whole, part, rfl, hsome, hwhole, hpart⟩
      refine scans_fraction hsome hwhole hpart (h.stops .fraction fun c hc => ?_)
      exact ⟨whole, part ++ [c], by simp, hsome, hwhole, isDigits_concat hpart hc⟩
  | quote =>
      cases hmatch
      exact scans_quote after
  | comment =>
      cases hmatch
      exact scans_comment hsolid
  -- No gap starts solid text, so the two rules that match gaps do not win there.
  | lineBreak =>
      cases hmatch
      exact absurd (by decide) (not_isBlank_of_solid hsolid)
  | blanks =>
      rcases List.exists_cons_of_ne_nil hmatch.1 with ⟨c, rest, rfl⟩
      exact absurd (hmatch.2 c List.mem_cons_self).1 (not_isBlank_of_solid hsolid)
  | word =>
      have hscans := scans_word hmatch (h.stops .word fun c => isNameShaped_concat hmatch)
      rwa [if_neg] at hscans
      -- Were the word reserved, then the rule for it would be preferred.
      intro hmem
      have hpreferred := h.preferred rfl (.reserved (String.ofList text))
        ⟨hmem, String.toList_ofList.symm⟩
      cases hpreferred
  | reserved spelling =>
      rcases hmatch with ⟨hmem, rfl⟩
      have hshape := isNameShaped_of_reserved hmem
      have hscans := scans_word hshape (h.stops .word fun c => isNameShaped_concat hshape)
      rwa [String.ofList_toList, if_pos hmem] at hscans
  | mark mark =>
      cases hmatch
      refine scans_mark ?_
      -- A star behind a slash would make an opening mark of the two.
      rintro rfl hhead
      have hstop : Stops (· = '*') after := by
        refine h.stops .comment ?_
        rintro c rfl
        rfl
      exact hstop '*' hhead rfl

/-- Where no rule matches, a scan takes one character and finds it at fault. -/
theorem scan?_unrecognized {c : Char} {rest : List Char}
    (h : ∀ (rule : Rule) (text : List Char), text <+: c :: rest → ¬ rule.Matches text) :
    scan? (c :: rest) =
      some { outcome := .error .unrecognizedCharacter, text := [c], rest := rest } := by
  have hone : ∀ rule : Rule, ¬ rule.Matches [c] := fun rule => h rule [c] ⟨rest, rfl⟩
  have hdigit : ¬ c.isDigit = true := by
    intro hc
    refine hone .integer ⟨List.cons_ne_nil c [], fun d hd => ?_⟩
    rwa [List.mem_singleton.mp hd]
  have hstart : ¬ isWordStart c = true := by
    intro hc
    exact hone .word ⟨isWordStart_iff.mp hc, fun d hd => absurd hd List.not_mem_nil⟩
  have hquote : c ≠ '"' := by
    rintro rfl
    exact hone .quote rfl
  have hcomment : ¬ (c = '/' ∧ rest.head? = some '*') := by
    rintro ⟨rfl, hhead⟩
    exact hone (.mark .slash) rfl
  rw [scan?, if_neg hdigit, if_neg hstart, if_neg hquote, if_neg hcomment]
  cases hmark : Mark.ofChar? c with
  | none => rfl
  | some mark =>
      refine absurd ?_ (hone (.mark mark))
      rw [Rule.Matches, Mark.char_of_ofChar? hmark]

/-! ### Readings -/

/-- The longest gap at the front of a text, and what is ahead behind it. -/
structure LongestGap (skipped ahead text : List Char) : Prop where
  divided : text = skipped ++ ahead
  isGap : IsGap skipped
  longest : ∀ other, other <+: text → IsGap other → other <+: skipped

theorem longestGap_gap (text : List Char) : LongestGap (gap text).1 (gap text).2 text where
  divided := (gap_append text).symm
  isGap := isGap_gap text
  longest := by
    rintro other ⟨rest, rfl⟩ hgap
    rw [gap_append_isGap hgap]
    exact List.prefix_append other (gap rest).1

namespace Cursor

/-- The reading that an outcome makes of the text taken behind a gap. A fault
    is put on the line where the reading began. -/
def readingOf (cursor : Cursor) (skipped taken : List Char) :
    Except LexicalFault Token → Except LexicalError Lexeme
  | .ok token =>
    .ok { token := token
          span := ⟨(cursor.pass skipped []).offset, (cursor.pass (skipped ++ taken) []).offset⟩
          line := (cursor.pass (skipped ++ taken) []).line }
  | .error fault =>
    .error { fault := fault
             fragment := String.ofList taken
             offset := (cursor.pass skipped []).offset
             line := cursor.line }

/-- The next reading passes a gap and the text taken behind it, and gives an
    outcome. -/
structure Gives (cursor : Cursor) (skipped : List Char) (outcome : Except LexicalFault Token)
    (taken behind : List Char) : Prop where
  divided : cursor.rest = skipped ++ (taken ++ behind)
  next_eq : cursor.next =
    (cursor.readingOf skipped taken outcome, cursor.pass (skipped ++ taken) behind)

/-- The next reading gives what a rule produces for a match behind a gap. -/
def Applies (cursor : Cursor) (skipped : List Char) (rule : Rule) (text after : List Char) :
    Prop :=
  ∃ outcome taken behind, rule.Produces text after outcome taken ∧
    cursor.Gives skipped outcome taken behind

/-- The next reading passes the longest gap, and then gives what the rule with
    the longest match produces. -/
structure LongestMatch (cursor : Cursor) (skipped ahead : List Char) : Prop where
  skips : LongestGap skipped ahead cursor.rest
  ending : ahead = [] → cursor.Gives skipped (.ok .eof) [] []
  /-- Where a rule matches, there is one that wins. -/
  decided : ∀ (rule : Rule) (text : List Char), text <+: ahead → rule.Matches text →
    ∃ winner longest, Rule.Wins winner longest ahead
  /-- A rule that wins applies. -/
  winner : ∀ (rule : Rule) (text after : List Char), ahead = text ++ after →
    rule.Wins text ahead → cursor.Applies skipped rule text after
  /-- Where no rule matches, and only there, one character is at fault. -/
  unrecognized : ∀ taken behind,
    cursor.Gives skipped (.error .unrecognizedCharacter) taken behind ↔
      ∃ c, taken = [c] ∧ ahead = c :: behind ∧
        ∀ (rule : Rule) (text : List Char), text <+: ahead → ¬ rule.Matches text
  /-- A word is taken as a whole, and is a name if it is not reserved. -/
  word : ∀ word after, ahead = word ++ after → IsNameShaped word → Stops IsNamePart after →
    cursor.Applies skipped
      (if String.ofList word ∈ reservedWords then .reserved (String.ofList word) else .word)
      word after
  /-- Digits are taken as a whole if no point follows. -/
  integer : ∀ digits after, ahead = digits ++ after → digits ≠ [] → IsDigits digits →
    Stops (·.isDigit = true) after → after.head? ≠ some '.' →
    cursor.Applies skipped .integer digits after
  /-- A point after digits is taken with them, and so are the digits after it. -/
  fraction : ∀ whole part after, ahead = whole ++ '.' :: part ++ after → whole ≠ [] →
    IsDigits whole → IsDigits part → Stops (·.isDigit = true) after →
    cursor.Applies skipped .fraction (whole ++ '.' :: part) after
  quote : ∀ after, ahead = '"' :: after → cursor.Applies skipped .quote ['"'] after
  comment : ∀ after, ahead = '/' :: '*' :: after →
    cursor.Applies skipped .comment ['/', '*'] after
  /-- A mark is a token, unless it is the slash of an opening mark. -/
  mark : ∀ (mark : Mark) (after : List Char), ahead = mark.char :: after →
    (mark = .slash → after.head? ≠ some '*') →
    cursor.Applies skipped (.mark mark) [mark.char] after

variable {cursor : Cursor} {skipped ahead : List Char}

theorem gives_unique {first second : Except LexicalFault Token}
    {taken taken' behind behind' : List Char} (h : cursor.Gives skipped first taken behind)
    (h' : cursor.Gives skipped second taken' behind') :
    first = second ∧ taken = taken' ∧ behind = behind' := by
  have hnext := h.next_eq.symm.trans h'.next_eq
  rw [Prod.mk.injEq] at hnext
  have hbehind : behind = behind' := congrArg Cursor.rest hnext.2
  subst hbehind
  have htaken : taken = taken' :=
    List.append_cancel_right (List.append_cancel_left (h.divided.symm.trans h'.divided))
  subst htaken
  refine ⟨?_, rfl, rfl⟩
  cases first <;> cases second <;> cases hnext.1 <;> rfl

section Behind

variable (hgap : gap cursor.rest = (skipped, ahead))

include hgap

theorem skipGap_eq : cursor.skipGap = cursor.pass skipped ahead := by
  rw [skipGap, hgap]

theorem divided_of_gap : cursor.rest = skipped ++ ahead := by
  have h := gap_append cursor.rest
  rw [hgap] at h
  exact h.symm

/-- Behind the gap, a reading gives what a scan gives. -/
theorem gives_of_scan? {scanned : Scanned} (hscan : scan? ahead = some scanned) :
    cursor.Gives skipped scanned.outcome scanned.text scanned.rest := by
  have hthere : (cursor.pass skipped ahead).pass scanned.text scanned.rest =
      cursor.pass (skipped ++ scanned.text) scanned.rest := by
    simp only [pass, Text.width_append, Text.breaks_append, Nat.add_assoc]
  refine ⟨?_, ?_⟩
  · rw [divided_of_gap hgap, scan?_append hscan]
  · have hread : cursor.read? = some (cursor.readingOf skipped scanned.text scanned.outcome,
        cursor.pass (skipped ++ scanned.text) scanned.rest) := by
      rw [read?_eq, skipGap_eq hgap]
      change (scan? ahead).map _ = _
      rw [hscan, Option.map_some, taking, skipGap_eq hgap, hthere]
      cases scanned.outcome <;> rfl
    exact next_of_some hread

theorem gives_eof (hend : ahead = []) : cursor.Gives skipped (.ok .eof) [] [] := by
  subst hend
  have hnone : cursor.read? = none := read?_eq_none.mpr (by rw [skipGap_eq hgap, pass])
  refine ⟨divided_of_gap hgap, ?_⟩
  rw [next_of_none hnone, skipGap_eq hgap, readingOf, List.append_nil, eof]

theorem applies_of_scans {rule : Rule} {text after : List Char} (hahead : ahead = text ++ after)
    (h : Scans rule text after) : cursor.Applies skipped rule text after := by
  rcases h with ⟨scanned, hscan, hproduces⟩
  exact ⟨scanned.outcome, scanned.text, scanned.rest, hproduces,
    gives_of_scan? hgap (hahead ▸ hscan)⟩

theorem solid_of_gap : Solid ahead := by
  have h := solid_gap cursor.rest
  rwa [hgap] at h

theorem applies_of_wins {rule : Rule} {text after : List Char} (hahead : ahead = text ++ after)
    (h : rule.Wins text ahead) : cursor.Applies skipped rule text after := by
  have hsolid := solid_of_gap hgap
  subst hahead
  exact applies_of_scans hgap rfl (scans_of_wins hsolid h)

/-- Where a reading finds a character at fault, no rule matches. -/
theorem not_matches_of_gives {taken behind : List Char}
    (h : cursor.Gives skipped (.error .unrecognizedCharacter) taken behind) :
    ∀ (rule : Rule) (text : List Char), text <+: ahead → ¬ rule.Matches text := by
  intro rule text hfront hmatch
  rcases exists_wins hfront hmatch with ⟨winner, longest, hwins⟩
  rcases hwins.front with ⟨after, hafter⟩
  rcases applies_of_wins hgap hafter.symm hwins with ⟨outcome, taken', _, hproduces, hgives⟩
  rw [← (gives_unique h hgives).1] at hproduces
  cases hproduces

theorem gives_unrecognized {taken behind : List Char} :
    cursor.Gives skipped (.error .unrecognizedCharacter) taken behind ↔
      ∃ c, taken = [c] ∧ ahead = c :: behind ∧
        ∀ (rule : Rule) (text : List Char), text <+: ahead → ¬ rule.Matches text := by
  constructor
  · intro h
    have hnone := not_matches_of_gives hgap h
    cases hahead : ahead with
    | nil => cases (gives_unique h (gives_eof hgap hahead)).1
    | cons c rest =>
        rw [hahead] at hgap hnone
        have hunique := gives_unique h (gives_of_scan? hgap (scan?_unrecognized hnone))
        exact ⟨c, hunique.2.1, by rw [hunique.2.2], hnone⟩
  · rintro ⟨c, rfl, rfl, hnone⟩
    exact gives_of_scan? hgap (scan?_unrecognized hnone)

end Behind

end Cursor

/-- A reading passes the longest gap, and then gives what the rule with the
    longest match produces. -/
theorem reads_longest_match (cursor : Cursor) :
    ∃ skipped ahead, cursor.LongestMatch skipped ahead := by
  refine ⟨(gap cursor.rest).1, (gap cursor.rest).2, ?_⟩
  have hgap : gap cursor.rest = ((gap cursor.rest).1, (gap cursor.rest).2) := rfl
  have happlies := @Cursor.applies_of_scans cursor _ _ hgap
  constructor
  case skips => exact longestGap_gap cursor.rest
  case ending => exact Cursor.gives_eof hgap
  case decided => exact fun rule text => exists_wins
  case winner => exact fun rule text after => Cursor.applies_of_wins hgap
  case unrecognized => exact fun taken behind => Cursor.gives_unrecognized hgap
  case word => exact fun word after hahead hword hstop => happlies hahead (scans_word hword hstop)
  case integer =>
    intro digits after hahead hsome hdigits hstop hpoint
    exact happlies hahead (scans_integer ⟨hsome, hdigits⟩ hstop hpoint)
  case fraction =>
    intro whole part after hahead hsome hwhole hpart hstop
    exact happlies hahead (scans_fraction hsome hwhole hpart hstop)
  case quote => exact fun after hahead => happlies hahead (scans_quote after)
  case comment =>
    intro after hahead
    have hsolid := Cursor.solid_of_gap hgap
    rw [hahead] at hsolid
    exact happlies hahead (scans_comment hsolid)
  case mark => exact fun mark after hahead hstar => happlies hahead (scans_mark hstar)

end Scriptlet
