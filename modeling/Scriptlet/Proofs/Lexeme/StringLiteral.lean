import Mathlib.Algebra.Group.Nat.Even
import Mathlib.Data.List.DropRight
import Scriptlet.Proofs.Lexeme.LongestMatch

/-!
# Where a String Literal Ends and What It Says

The text behind an opening quote is divided by a walk that takes a backslash
together with the character behind it, so a quote closes the literal unless it
is the second half of such a pair. Seen from the quote, no walk is needed: it
closes the literal if the backslashes right before it are even in number, and
the first quote of that kind is the one. `Closing` and `FirstClosing` say this.

The two agree because a pair never changes the parity. If the second half of a
pair is a backslash, the run of backslashes grows by two; if it is anything
else, the run starts anew behind the pair, as it does behind a character that is
no backslash. So the walk comes to a quote exactly if the run before it is even.

What a literal says is a relation between the text of its body and its content,
with a table of the four pairs that stand for one character. Every body that the
walk finds has a content, and never two.

## Main definitions

* `finalSlashes`: The number of backslashes at the end of a text.
* `Closing`, `FirstClosing`: A quote that closes a literal, and the first one.
* `escapes`: The pairs that stand for one character.
* `StandsFor`: The content of a body.
* `Cursor.literalReading`, `Cursor.endlessReading`: What reading a literal comes
  to.

## Theorems

* `even_finalSlashes_pair`: A pair in front does not change the parity.
* `split?_iff_firstClosing`: The walk ends at the first quote that closes.
* `standsFor_iff`: What the body that is found stands for.
* `string_literal_exact`: The end and the content of a string literal.
-/

namespace Scriptlet

namespace Text.Quoted

/-! ### The closing quote -/

/-- The number of backslashes at the end of a text. -/
def finalSlashes (text : List Char) : Nat := (text.rtakeWhile (· == '\\')).length

/-- A quote that stands behind `body` in a text has an even number of
    backslashes right before it. -/
structure Closing (text body after : List Char) : Prop where
  divided : text = body ++ '"' :: after
  even : Even (finalSlashes body)

/-- The first such quote of a text. -/
structure FirstClosing (text body after : List Char) : Prop extends Closing text body after where
  first : ∀ other behind, Closing text other behind → body.length ≤ other.length

/-- A character in front belongs to the backslashes at the end only if nothing
    but backslashes follows it. -/
theorem finalSlashes_cons (c : Char) (text : List Char) :
    finalSlashes (c :: text) =
      if finalSlashes text = text.length then text.length + (if c = '\\' then 1 else 0)
      else finalSlashes text := by
  simp only [finalSlashes, List.rtakeWhile, List.length_reverse, List.reverse_cons,
    List.takeWhile_append]
  by_cases hall : (text.reverse.takeWhile (· == '\\')).length = text.length
  · by_cases hc : c = '\\'
    · simp [hall, hc]
    · simp [hall, hc]
  · simp [hall]

theorem finalSlashes_plain {c : Char} (hslash : c ≠ '\\') (text : List Char) :
    finalSlashes (c :: text) = finalSlashes text := by
  rw [finalSlashes_cons, if_neg hslash]
  split
  · omega
  · rfl

theorem finalSlashes_le (text : List Char) : finalSlashes text ≤ text.length :=
  (List.rtakeWhile_suffix _ _).length_le

/-- A backslash and the character behind it do not change the parity. -/
theorem even_finalSlashes_pair (c : Char) (text : List Char) :
    Even (finalSlashes ('\\' :: c :: text)) ↔ Even (finalSlashes text) := by
  have hle := finalSlashes_le text
  rw [finalSlashes_cons, List.length_cons, if_pos rfl]
  by_cases hc : c = '\\'
  · rw [finalSlashes_cons, if_pos hc]
    by_cases hall : finalSlashes text = text.length
    -- Two more backslashes in front of nothing but backslashes.
    · rw [if_pos hall, if_pos rfl, hall, Nat.even_iff, Nat.even_iff]
      omega
    · rw [if_neg hall, if_neg (by omega)]
  · rw [finalSlashes_plain hc, if_neg (by omega)]

/-- A body that does not close its literal ends in an even number of
    backslashes. -/
theorem even_of_isBody {body : List Char} (h : IsBody body) : Even (finalSlashes body) := by
  induction h with
  | nil => exact Even.zero
  | plain quote slash _ ih =>
      rw [finalSlashes_plain slash]
      exact ih
  | pair c _ ih => exact (even_finalSlashes_pair c _).mpr ih

/-- The walk comes no further than to a quote with an even number of backslashes
    right before it. -/
theorem split?_of_closing {text other behind : List Char} (h : Closing text other behind) :
    ∃ body after, split? text = some (body, after) ∧ body.length ≤ other.length := by
  rcases h with ⟨hdivided, heven⟩
  fun_induction split? text generalizing other with
  | case1 => simp only [List.nil_eq, List.append_eq_nil_iff, reduceCtorEq, and_false] at hdivided
  | case2 rest => exact ⟨[], rest, rfl, Nat.zero_le _⟩
  | case3 c rest ih =>
      rcases other with _ | ⟨first, _ | ⟨second, other⟩⟩
      · cases hdivided
      -- One backslash is an odd number of them.
      · cases hdivided
        exact absurd heven (by decide)
      · cases hdivided
        rcases ih rfl ((even_finalSlashes_pair c other).mp heven) with ⟨body, after, hsplit, hle⟩
        refine ⟨'\\' :: c :: body, after, by rw [hsplit]; rfl, ?_⟩
        exact Nat.succ_le_succ (Nat.succ_le_succ hle)
  | case4 c rest hquote hslash ih =>
      rcases other with _ | ⟨first, other⟩
      · cases hdivided
        exact absurd rfl hquote
      · cases hdivided
        -- There is a quote further on, so a backslash would open a pair.
        have hplain : c ≠ '\\' := by
          intro hc
          rcases List.exists_cons_of_ne_nil (List.append_ne_nil_of_right_ne_nil other
            (List.cons_ne_nil '"' behind)) with ⟨d, tail, hrest⟩
          exact hslash d tail hc hrest
        rw [finalSlashes_plain hplain] at heven
        rcases ih rfl heven with ⟨body, after, hsplit, hle⟩
        exact ⟨c :: body, after, by rw [hsplit]; rfl, Nat.succ_le_succ hle⟩

theorem closing_of_split? {text body after : List Char} (h : split? text = some (body, after)) :
    Closing text body after :=
  ⟨split?_eq_some h, even_of_isBody (isBody_of_split? h)⟩

/-- The walk ends at the first quote with an even number of backslashes right
    before it. -/
theorem split?_iff_firstClosing {text body after : List Char} :
    split? text = some (body, after) ↔ FirstClosing text body after := by
  constructor
  · intro h
    refine ⟨closing_of_split? h, fun other behind hother => ?_⟩
    rcases split?_of_closing hother with ⟨found, rest, hfound, hle⟩
    rw [h] at hfound
    cases hfound
    exact hle
  · intro h
    rcases split?_of_closing h.toClosing with ⟨found, rest, hfound, hle⟩
    have hclosing := closing_of_split? hfound
    have hlength : body.length = found.length :=
      Nat.le_antisymm (h.first found rest hclosing) hle
    -- Two divisions of one text at the same place are the same.
    have hparts := List.append_inj (h.divided.symm.trans hclosing.divided) hlength
    cases hparts.1
    cases hparts.2
    exact hfound

-- Of two quotes, the one behind three backslashes does not close, and the one behind two does.
example : split? ['\\', '\\', '\\', '"', '\\', '\\', '"', 'x'] =
    some (['\\', '\\', '\\', '"', '\\', '\\'], ['x']) := by decide

theorem split?_eq_none_iff {text : List Char} :
    split? text = none ↔ ∀ body after, ¬ Closing text body after := by
  constructor
  · intro h body after hclosing
    rcases split?_of_closing hclosing with ⟨found, rest, hfound, -⟩
    rw [h] at hfound
    cases hfound
  · intro h
    cases hsplit : split? text with
    | none => rfl
    | some division => exact absurd (closing_of_split? hsplit) (h division.1 division.2)

/-! ### The content -/

/-- The characters that stand for another one behind a backslash, and that other
    one. -/
def escapes : List (Char × Char) := [('"', '"'), ('\\', '\\'), ('n', '\n'), ('t', '\t')]

/-- The content of a body, read from left to right. A backslash that is followed
    by none of the four characters is kept, and so is what follows it. -/
inductive StandsFor : List Char → List Char → Prop where
  | nil : StandsFor [] []
  | plain {c : Char} {text content : List Char} (slash : c ≠ '\\')
      (rest : StandsFor text content) : StandsFor (c :: text) (c :: content)
  | escape {c d : Char} {text content : List Char} (entry : (c, d) ∈ escapes)
      (rest : StandsFor text content) : StandsFor ('\\' :: c :: text) (d :: content)
  | kept {c : Char} {text content : List Char} (other : ∀ d, (c, d) ∉ escapes)
      (rest : StandsFor text content) : StandsFor ('\\' :: c :: text) ('\\' :: c :: content)

theorem escaped?_eq_some {c d : Char} : escaped? c = some d ↔ (c, d) ∈ escapes := by
  unfold escaped?
  split <;> simp_all [escapes, eq_comm]

theorem decode_plain {c : Char} (hslash : c ≠ '\\') (text : List Char) :
    decode (c :: text) = c :: decode text := by
  rw [decode]
  intro d tail hc
  exact absurd hc hslash

/-- There is no other content than the one that is decoded. -/
theorem decode_of_standsFor {body content : List Char} (h : StandsFor body content) :
    decode body = content := by
  induction h with
  | nil => rfl
  | plain slash _ ih => rw [decode_plain slash, ih]
  | escape entry _ ih => rw [decode, escaped?_eq_some.mpr entry, ih]
  | @kept c _ _ other _ ih =>
      have hnone : escaped? c = none :=
        Option.eq_none_iff_forall_ne_some.mpr fun d hd => other d (escaped?_eq_some.mp hd)
      rw [decode, hnone, ih]

theorem standsFor_decode {body : List Char} (h : IsBody body) : StandsFor body (decode body) := by
  induction h with
  | nil => exact .nil
  | plain quote slash _ ih =>
      rw [decode_plain slash]
      exact .plain slash ih
  | pair c _ ih =>
      rw [decode]
      cases hc : escaped? c with
      | none =>
          refine .kept (fun d hd => ?_) ih
          rw [escaped?_eq_some.mpr hd] at hc
          cases hc
      | some d => exact .escape (escaped?_eq_some.mp hc) ih

/-- The body that the walk finds stands for what is decoded, and for nothing
    else. -/
theorem standsFor_iff {text body after content : List Char}
    (h : split? text = some (body, after)) : StandsFor body content ↔ decode body = content := by
  constructor
  · exact decode_of_standsFor
  · rintro rfl
    exact standsFor_decode (isBody_of_split? h)

end Text.Quoted

/-! ### Reading a literal -/

open Text.Quoted

namespace Cursor

/-- A place where a literal starts, with some text behind its opening quote. -/
def atQuote (text : List Char) (offset line : Nat) : Cursor := { rest := '"' :: text, offset, line }

/-- The reading of a literal that starts at a cursor, with a body, a content, and
    some text behind its closing quote. -/
def literalReading (cursor : Cursor) (body content after : List Char) :
    Except LexicalError Lexeme × Cursor :=
  let there := cursor.pass ('"' :: (body ++ ['"'])) after
  (.ok ⟨.string (String.ofList content), ⟨cursor.offset, there.offset⟩, there.line⟩, there)

/-- The reading of a literal that starts at a cursor and has no end. It takes all
    that is ahead. -/
def endlessReading (cursor : Cursor) : Except LexicalError Lexeme × Cursor :=
  (.error ⟨.unterminatedString, String.ofList cursor.rest, cursor.offset, cursor.line⟩,
    cursor.pass cursor.rest [])

variable {text body after content : List Char} {offset line : Nat}

/-- A quote is no gap, and the rule for literals applies. -/
theorem next_atQuote :
    (atQuote text offset line).next = (atQuote text offset line).taking (scanString text) ∧
      (atQuote text offset line).skipGap = atQuote text offset line := by
  have hsolid : Solid ('"' :: text) :=
    solid_cons (by decide) fun hslash => absurd hslash (by decide)
  have hskip : (atQuote text offset line).skipGap = atQuote text offset line :=
    skipGap_of_solid hsolid
  refine ⟨?_, hskip⟩
  rw [next_eq, hskip]
  rfl

theorem literalReading_inj {cursor : Cursor} {other found behind : List Char}
    (h : cursor.literalReading body content after = cursor.literalReading other found behind) :
    content = found ∧ after = behind := by
  rw [literalReading, literalReading, Prod.mk.injEq] at h
  have hcontent := h.1
  simp only [Except.ok.injEq, Lexeme.mk.injEq, Token.string.injEq, String.ofList_inj] at hcontent
  exact ⟨hcontent.1, congrArg Cursor.rest h.2⟩

theorem next_of_split? (h : split? text = some (body, after)) :
    (atQuote text offset line).next =
      (atQuote text offset line).literalReading body (decode body) after := by
  rw [next_atQuote.1, taking, next_atQuote.2, scanString, h]
  rfl

theorem next_of_split?_none (h : split? text = none) :
    (atQuote text offset line).next = (atQuote text offset line).endlessReading := by
  rw [next_atQuote.1, taking, next_atQuote.2, scanString, h]
  rfl

end Cursor

open Cursor

/-- Behind an opening quote, a reading gives a string exactly if some quote has
    an even number of backslashes right before it, and gives nothing but strings.
    The first such quote is the last character of the string's text, and the
    content is what the text before it stands for. If there is none, the literal
    is not terminated, and all of the source is taken. -/
theorem string_literal_exact (text : List Char) (offset line : Nat) :
    (∀ body after content,
      text = body ++ '"' :: after ∧
          (atQuote text offset line).next =
            (atQuote text offset line).literalReading body content after ↔
        FirstClosing text body after ∧ StandsFor body content) ∧
    ((∃ body after content, text = body ++ '"' :: after ∧
          (atQuote text offset line).next =
            (atQuote text offset line).literalReading body content after) ↔
      ∃ body after, Closing text body after) ∧
    ((∃ lexeme, (atQuote text offset line).next.1 = .ok lexeme) ↔
      ∃ body after, Closing text body after) ∧
    ((atQuote text offset line).next = (atQuote text offset line).endlessReading ↔
      ∀ body after, ¬ Closing text body after) := by
  cases hsplit : split? text with
  | none =>
      have hnone := split?_eq_none_iff.mp hsplit
      rw [next_of_split?_none hsplit]
      refine ⟨fun body after content => ?_, ?_, ?_, iff_of_true rfl hnone⟩
      · constructor
        · rintro ⟨_, h⟩
          cases h
        · intro h
          exact absurd h.1.toClosing (hnone body after)
      · constructor
        · rintro ⟨body, after, content, _, h⟩
          cases h
        · rintro ⟨body, after, h⟩
          exact absurd h (hnone body after)
      · constructor
        · rintro ⟨lexeme, h⟩
          cases h
        · rintro ⟨body, after, h⟩
          exact absurd h (hnone body after)
  | some division =>
      rcases division with ⟨found, rest⟩
      have hclosing := closing_of_split? hsplit
      rw [next_of_split? hsplit]
      have hsome : ∃ body after, Closing text body after := ⟨found, rest, hclosing⟩
      refine ⟨fun body after content => ?_,
        iff_of_true ⟨found, rest, decode found, hclosing.divided, rfl⟩ hsome,
        iff_of_true ⟨_, rfl⟩ hsome, ?_⟩
      · constructor
        · rintro ⟨hdivided, h⟩
          rcases literalReading_inj h with ⟨hcontent, rfl⟩
          -- The text behind is the same, so the text before it is too.
          have hbody : found = body :=
            List.append_cancel_right (hclosing.divided.symm.trans hdivided)
          subst hbody
          exact ⟨split?_iff_firstClosing.mp hsplit, (standsFor_iff hsplit).mpr hcontent⟩
        · rintro ⟨hfirst, hcontent⟩
          have hsame := split?_iff_firstClosing.mpr hfirst
          rw [hsplit] at hsame
          cases hsame
          rw [(standsFor_iff hsplit).mp hcontent]
          exact ⟨hfirst.divided, rfl⟩
      · constructor
        · intro h
          cases h
        · intro h
          exact absurd hclosing (h found rest)

end Scriptlet
