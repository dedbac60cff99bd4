import Mathlib.Data.String.Basic
import Scriptlet.Proofs.Lexeme.Division
import Scriptlet.Proofs.Lexeme.Gap

/-!
# How Tokens Are Spelt

Which tokens a text can spell, said of the tokens alone: an integer that is not
negative, a name of the right form that is no reserved word, and every string,
truth value, type, mark and keyword. The end of the input is spelt by nothing.

Scanning gives no others, and it gives each of these for its own text, if what
follows does not go on with it. A blank, a slash and the end of the text go on
with no token. A slash is no exception: only a star would make a comment of the
two, and a star is neither a blank nor a slash.

## Main definitions

* `Token.WellFormed`: The tokens that a text can spell.
* `Parted`: Text that goes on with no token before it.
* `Stops`: Text that does not go on with a kind of characters.

## Theorems

* `scan?_wellFormed`: Scanning gives well-formed tokens only.
* `scan?_text`: The text of a well-formed token is scanned as that token.
* `solid_of_scan?`: Where a token starts, no gap does.
-/

namespace Scriptlet

/-- A character of `[a-zA-Z_]`. -/
def IsNameStart (c : Char) : Prop := ('a' ≤ c ∧ c ≤ 'z') ∨ ('A' ≤ c ∧ c ≤ 'Z') ∨ c = '_'

/-- A character of `[a-zA-Z0-9_]`. -/
def IsNamePart (c : Char) : Prop := IsNameStart c ∨ ('0' ≤ c ∧ c ≤ '9')

/-- A text of the form `[a-zA-Z_][a-zA-Z0-9_]*`. -/
def IsNameShaped : List Char → Prop
  | [] => False
  | c :: rest => IsNameStart c ∧ ∀ d ∈ rest, IsNamePart d

instance : DecidablePred IsNameStart := fun c =>
  inferInstanceAs (Decidable (('a' ≤ c ∧ c ≤ 'z') ∨ ('A' ≤ c ∧ c ≤ 'Z') ∨ c = '_'))

instance : DecidablePred IsNamePart := fun c =>
  inferInstanceAs (Decidable (IsNameStart c ∨ ('0' ≤ c ∧ c ≤ '9')))

instance : DecidablePred IsNameShaped
  | [] => .isFalse id
  -- Over the list, because there is a search over all characters as well.
  | c :: rest => @instDecidableAnd (IsNameStart c) _ _ (List.decidableBAll IsNamePart rest)

/-- The words that have the form of a name and are none. -/
def reservedWords : List String :=
  ["if", "else", "print", "func", "True", "False", "int", "float", "str", "bool"]

/-- A token that a text can spell. -/
inductive Token.WellFormed : Token → Prop where
  | integer {value : Int64} (natural : 0 ≤ value) : WellFormed (.integer value)
  | string (content : String) : WellFormed (.string content)
  | bool (value : Bool) : WellFormed (.bool value)
  | name {word : String} (shape : IsNameShaped word.toList) (free : word ∉ reservedWords) :
      WellFormed (.name word)
  | ty (ty : Ty) : WellFormed (.ty ty)
  | mark (mark : Mark) : WellFormed (.mark mark)
  | keyword (keyword : Keyword) : WellFormed (.keyword keyword)

/-- A text that goes on with no token before it: its first character is blank
    or a slash, or there is none. -/
def Parted (text : List Char) : Prop :=
  ∀ c, text.head? = some c → Text.isBlank c = true ∨ c = '/'

/-- A text that does not go on with a character of a kind. -/
def Stops (p : Char → Prop) (text : List Char) : Prop := ∀ c, text.head? = some c → ¬ p c

theorem Token.WellFormed.ne_eof {token : Token} (h : token.WellFormed) : token ≠ .eof := by
  rintro rfl
  cases h

/-! ### Characters -/

theorem isWordStart_iff {c : Char} : isWordStart c = true ↔ IsNameStart c := by
  unfold isWordStart IsNameStart Char.isAlpha Char.isUpper Char.isLower
  simp only [Char.le_def, Bool.or_eq_true, Bool.and_eq_true, decide_eq_true_eq, beq_iff_eq,
    ge_iff_le]
  tauto

theorem isWordPart_iff {c : Char} : isWordPart c = true ↔ IsNamePart c := by
  rw [IsNamePart, ← isWordStart_iff]
  unfold isWordPart isWordStart Char.isAlphanum Char.isDigit
  simp only [Char.le_def, Bool.or_eq_true, Bool.and_eq_true, decide_eq_true_eq, ge_iff_le]
  tauto

theorem isWordPart_of_isDigit {c : Char} (h : c.isDigit = true) : isWordPart c = true := by
  rw [isWordPart, Char.isAlphanum, h, Bool.or_true, Bool.true_or]

theorem not_isDigit_of_isWordStart {c : Char} (h : isWordStart c = true) :
    ¬ c.isDigit = true := by
  intro hdigit
  have hbounds := Char.isDigit_iff_toNat.mp hdigit
  simp only [isWordStart_iff, IsNameStart, Char.le_def, UInt32.le_iff_toNat_le] at h
  rcases h with hlower | hupper | rfl
  · exact absurd (Nat.le_trans hlower.1 hbounds.2) (by decide)
  · exact absurd (Nat.le_trans hupper.1 hbounds.2) (by decide)
  · exact absurd hdigit (by decide)

theorem toNat_of_isWordPart {c : Char} (h : isWordPart c = true) :
    48 ≤ c.toNat ∧ c.toNat ≤ 122 := by
  simp only [isWordPart_iff, IsNamePart, IsNameStart, Char.le_def, UInt32.le_iff_toNat_le] at h
  rcases h with (h | h | rfl) | h
  · exact ⟨Nat.le_trans (by decide) h.1, h.2⟩
  · exact ⟨Nat.le_trans (by decide) h.1, Nat.le_trans h.2 (by decide)⟩
  · decide
  · exact ⟨h.1, Nat.le_trans h.2 (by decide)⟩

/-- The blank characters lie around the ones that tokens start with. -/
theorem not_isBlank_of_toNat {c : Char} (hlow : 33 ≤ c.toNat) (hhigh : c.toNat ≤ 132) :
    Text.isBlank c = false := by
  refine Bool.eq_false_iff.mpr fun h => ?_
  simp only [Text.isBlank, Text.isWhiteSpace, Text.whiteSpaceRanges, List.any_cons, List.any_nil,
    Bool.or_eq_true, Bool.and_eq_true, Bool.or_false, decide_eq_true_eq] at h
  omega

/-- What goes on with no token goes on with no word. -/
theorem Parted.stops {text : List Char} (h : Parted text) : Stops (isWordPart · = true) text := by
  intro c hhead hpart
  have hbounds := toNat_of_isWordPart hpart
  rcases h c hhead with hblank | rfl
  · rw [not_isBlank_of_toNat (by omega) (by omega)] at hblank
    cases hblank
  · exact absurd hbounds.1 (by decide)

/-- It goes on with a blank or a slash, and with nothing else. -/
theorem Parted.head?_ne {text : List Char} (h : Parted text) {c : Char}
    (hblank : Text.isBlank c = false) (hslash : c ≠ '/') : text.head? ≠ some c := by
  intro hhead
  rcases h c hhead with hc | hc
  · rw [hblank] at hc
    cases hc
  · exact hslash hc

/-! ### Tokens of scans -/

theorem integerToken_wellFormed {digits : List Char} {token : Token}
    (h : integerToken digits = .ok token) : token.WellFormed := by
  rw [integerToken] at h
  split at h
  · rename_i hmax
    cases h
    have hsmall : decimalValue digits < 2 ^ 63 := by
      rw [maxInteger] at hmax
      omega
    refine .integer (Int64.le_iff_toInt_le.mpr ?_)
    rw [Int64.toInt_ofNat_of_lt hsmall]
    exact Int.natCast_nonneg _
  · cases h

theorem keys_reserved : Token.reserved.map Prod.fst = reservedWords := rfl

theorem Token.ofWord_of_notMem {word : String} (h : word ∉ reservedWords) :
    Token.ofWord word = .name word := by
  have hlookup : Token.reserved.lookup word = none := by
    refine List.lookup_eq_none_iff.mpr fun entry hmem => bne_iff_ne.mpr ?_
    rintro rfl
    exact h (keys_reserved ▸ List.mem_map_of_mem hmem)
  rw [Token.ofWord, hlookup]
  rfl

theorem reserved_wellFormed {entry : String × Token} (h : entry ∈ Token.reserved) :
    entry.2.WellFormed := by
  simp only [Token.reserved, List.mem_append, List.mem_map] at h
  rcases h with (⟨keyword, _, rfl⟩ | ⟨value, _, rfl⟩) | ⟨ty, _, rfl⟩
  · exact .keyword keyword
  · exact .bool value
  · exact .ty ty

theorem Token.ofWord_mem {word : String} (h : word ∈ reservedWords) :
    (word, Token.ofWord word) ∈ Token.reserved := by
  rw [Token.ofWord]
  cases hlookup : Token.reserved.lookup word with
  | none =>
      rcases List.mem_map.mp (keys_reserved ▸ h) with ⟨entry, hmem, rfl⟩
      have hne := List.lookup_eq_none_iff.mp hlookup entry hmem
      exact absurd rfl (bne_iff_ne.mp hne)
  | some token =>
      rcases List.lookup_eq_some_iff.mp hlookup with ⟨before, behind, hlist, -⟩
      rw [hlist]
      exact List.mem_append_right before List.mem_cons_self

theorem Token.ofWord_wellFormed {word : String} (h : IsNameShaped word.toList) :
    (Token.ofWord word).WellFormed := by
  by_cases hfree : word ∈ reservedWords
  · exact reserved_wellFormed (Token.ofWord_mem hfree)
  · rw [Token.ofWord_of_notMem hfree]
    exact .name h hfree

theorem isNameShaped_takeWhile {c : Char} (h : isWordStart c = true) (rest : List Char) :
    IsNameShaped ((c :: rest).takeWhile isWordPart) := by
  rw [List.takeWhile_cons_of_pos (isWordPart_of_isWordStart h)]
  refine ⟨isWordStart_iff.mp h, fun d hd => isWordPart_iff.mp ?_⟩
  exact List.all_eq_true.mp List.all_takeWhile d hd

/-- Scanning gives well-formed tokens only. -/
theorem scan?_wellFormed {text : List Char} {scanned : Scanned} {token : Token}
    (h : scan? text = some scanned) (htoken : scanned.outcome = .ok token) :
    token.WellFormed := by
  unfold scan? at h
  repeat' split at h
  all_goals simp only [reduceCtorEq, Option.some.injEq] at h
  all_goals subst h
  -- One case for each rule of the table.
  · rw [scanNumber] at htoken
    split at htoken
    · cases htoken
    · exact integerToken_wellFormed htoken
  · rename_i hstart
    cases htoken
    refine Token.ofWord_wellFormed ?_
    rw [String.toList_ofList]
    exact isNameShaped_takeWhile hstart _
  · rw [scanString] at htoken
    split at htoken
    · cases htoken
      exact .string _
    · cases htoken
  · cases htoken
  · cases htoken
    exact .mark _
  · cases htoken

/-! ### Scans of tokens -/

/-- A run of characters of one kind ends where another kind goes on. -/
theorem takeWhile_run {p : Char → Bool} {text rest : List Char}
    (htext : ∀ c ∈ text, p c = true) (hrest : Stops (p · = true) rest) :
    (text ++ rest).takeWhile p = text ∧ (text ++ rest).dropWhile p = rest := by
  rw [List.takeWhile_append_of_pos htext, List.dropWhile_append_of_pos htext]
  cases rest with
  | nil => exact ⟨List.append_nil text, rfl⟩
  | cons c rest =>
      have hc : ¬ p c = true := hrest c rfl
      rw [List.takeWhile_cons_of_neg hc, List.dropWhile_cons_of_neg hc]
      exact ⟨List.append_nil text, rfl⟩

theorem scan?_digits {digits rest : List Char} (hsome : digits ≠ [])
    (hdigits : ∀ c ∈ digits, c.isDigit = true) (hrest : Stops (·.isDigit = true) rest)
    (hpoint : rest.head? ≠ some '.') :
    scan? (digits ++ rest) =
      some { outcome := integerToken digits, text := digits, rest := rest } := by
  have hrun := takeWhile_run hdigits hrest
  have hscan : scanNumber (digits ++ rest) =
      { outcome := integerToken digits, text := digits, rest := rest } := by
    rw [scanNumber, hrun.1, hrun.2]
    split
    · exact absurd rfl hpoint
    · rfl
  rcases List.exists_cons_of_ne_nil hsome with ⟨c, tail, rfl⟩
  rw [List.cons_append] at hscan ⊢
  rw [scan?, if_pos (hdigits c List.mem_cons_self), hscan]

theorem scan?_word {word rest : List Char} (hword : IsNameShaped word)
    (hrest : Stops (isWordPart · = true) rest) :
    scan? (word ++ rest) =
      some { outcome := .ok (.ofWord (String.ofList word)), text := word, rest := rest } := by
  cases word with
  | nil => cases hword
  | cons c tail =>
      have hstart := isWordStart_iff.mpr hword.1
      have hparts : ∀ d ∈ c :: tail, isWordPart d = true := by
        intro d hd
        rcases List.mem_cons.mp hd with rfl | hd
        · exact isWordPart_of_isWordStart hstart
        · exact isWordPart_iff.mpr (hword.2 d hd)
      have hrun := takeWhile_run hparts hrest
      rw [List.cons_append] at hrun ⊢
      rw [scan?, if_neg (not_isDigit_of_isWordStart hstart), if_pos hstart, scanWord, hrun.1,
        hrun.2]

namespace Text.Quoted

theorem split?_cons {c : Char} (hquote : c ≠ '"') (hslash : c ≠ '\\') (text : List Char) :
    split? (c :: text) = (split? text).map fun (body, after) => (c :: body, after) := by
  rw [split?]
  · exact hquote
  · intro d rest h
    exact absurd h hslash

/-- A written form is closed by the quote behind it and by none inside. -/
theorem split?_encode (text after : List Char) :
    split? (encode text ++ '"' :: after) = some (encode text, after) := by
  induction text with
  | nil => rfl
  | cons c text ih =>
      rw [encode]
      unfold encodeChar
      split
      -- Four characters are written as a pair, which is passed as a whole.
      · simp only [List.cons_append, List.nil_append, split?, ih, Option.map_some]
      · simp only [List.cons_append, List.nil_append, split?, ih, Option.map_some]
      · simp only [List.cons_append, List.nil_append, split?, ih, Option.map_some]
      · simp only [List.cons_append, List.nil_append, split?, ih, Option.map_some]
      · rename_i hquote hslash _ _
        rw [List.singleton_append, List.cons_append, split?_cons hquote hslash, ih]
        rfl

end Text.Quoted

theorem scan?_quoted (content : String) (rest : List Char) :
    scan? ((Token.string content).text.toList ++ rest) =
      some { outcome := .ok (.string content)
             text := (Token.string content).text.toList
             rest := rest } := by
  rw [Token.text, String.toList_ofList, List.cons_append, List.append_assoc,
    List.singleton_append, scan?, if_neg (by decide), if_neg (by decide), if_pos rfl, scanString,
    Text.Quoted.split?_encode]
  simp only [Text.Quoted.decode_encode, String.ofList_toList]

theorem scan?_mark (mark : Mark) {rest : List Char}
    (hrest : mark = .slash → rest.head? ≠ some '*') :
    scan? (mark.char :: rest) =
      some { outcome := .ok (.mark mark), text := [mark.char], rest := rest } := by
  have hdigit : ¬ mark.char.isDigit = true := by
    cases mark <;> decide
  have hstart : ¬ isWordStart mark.char = true := by
    cases mark <;> decide
  have hquote : mark.char ≠ '"' := by
    cases mark <;> decide
  have hcomment : ¬ (mark.char = '/' ∧ rest.head? = some '*') := by
    rintro ⟨hchar, hstar⟩
    have hfound := Mark.ofChar?_char mark
    rw [hchar] at hfound
    exact hrest (Option.some.inj hfound).symm hstar
  rw [scan?, if_neg hdigit, if_neg hstart, if_neg hquote, if_neg hcomment, Mark.ofChar?_char]

theorem scan?_integer {value : Int64} {rest : List Char} (h : 0 ≤ value) (hrest : Parted rest) :
    scan? ((Token.integer value).text.toList ++ rest) =
      some { outcome := .ok (.integer value)
             text := (Token.integer value).text.toList
             rest := rest } := by
  rcases Int.eq_ofNat_of_zero_le (Int64.le_iff_toInt_le.mp h) with ⟨n, hn⟩
  have htext : (Token.integer value).text.toList = Nat.toDigits 10 n := by
    rw [Token.text, hn]
    exact Nat.toList_repr
  have hvalue : integerToken (Nat.toDigits 10 n) = .ok (.integer value) := by
    have hdecimal : decimalValue (Nat.toDigits 10 n) = n :=
      Nat.ofDigitChars_toDigits (by decide) (by decide)
    have hmax : n ≤ maxInteger := by
      have hlt := value.toInt_lt
      rw [maxInteger]
      omega
    rw [integerToken, hdecimal, if_pos hmax, ← Int64.ofInt_eq_ofNat, ← hn, Int64.ofInt_toInt]
  rw [htext, scan?_digits Nat.toDigits_ne_nil (fun c => Nat.isDigit_of_mem_toDigits (by decide)
    (by decide)) (fun c hhead hdigit => hrest.stops c hhead (isWordPart_of_isDigit hdigit))
    (hrest.head?_ne (by decide) (by decide)), hvalue]

/-- The text of a well-formed token is scanned as that token. -/
theorem scan?_text {token : Token} {rest : List Char} (h : token.WellFormed)
    (hrest : Parted rest) :
    scan? (token.text.toList ++ rest) =
      some { outcome := .ok token, text := token.text.toList, rest := rest } := by
  -- A word is scanned as what is reserved for it.
  have hword : ∀ word : String, IsNameShaped word.toList → Token.ofWord word = token →
      scan? (word.toList ++ rest) =
        some { outcome := .ok token, text := word.toList, rest := rest } := by
    intro word hshape htoken
    rw [scan?_word hshape hrest.stops, String.ofList_toList, htoken]
  cases h with
  | integer natural => exact scan?_integer natural hrest
  | string content => exact scan?_quoted content rest
  | bool value =>
      refine hword (boolWord value) ?_ ?_
      · cases value <;> decide +kernel
      · cases value <;> decide
  | name shape free => exact hword _ shape (Token.ofWord_of_notMem free)
  | ty ty =>
      refine hword ty.keyword ?_ ?_
      · cases ty <;> decide +kernel
      · cases ty <;> decide
  | mark mark =>
      rw [Token.text, Char.toString, String.toList_singleton, List.singleton_append]
      exact scan?_mark mark fun _ => hrest.head?_ne (by decide) (by decide)
  | keyword keyword =>
      refine hword keyword.word ?_ ?_
      · cases keyword <;> decide +kernel
      · cases keyword <;> decide

theorem solid_of_isWordPart {c : Char} (h : isWordPart c = true) (rest : List Char) :
    Solid (c :: rest) := by
  have hbounds := toNat_of_isWordPart h
  refine solid_cons (not_isBlank_of_toNat (by omega) (by omega)) ?_
  rintro rfl
  exact absurd hbounds.1 (by decide)

/-- Where a token starts, no gap does. -/
theorem solid_of_scan? {text : List Char} {scanned : Scanned} {token : Token}
    (h : scan? text = some scanned) (htoken : scanned.outcome = .ok token) : Solid text := by
  unfold scan? at h
  repeat' split at h
  all_goals simp only [reduceCtorEq, Option.some.injEq] at h
  all_goals subst h
  · rename_i hdigit
    exact solid_of_isWordPart (isWordPart_of_isDigit hdigit) _
  · rename_i hstart
    exact solid_of_isWordPart (isWordPart_of_isWordStart hstart) _
  · rename_i hquote
    subst hquote
    exact solid_cons (by decide) fun hslash => absurd hslash (by decide)
  · cases htoken
  · rename_i hcomment _ mark hmark
    refine solid_cons ?_ fun hslash hstar => hcomment ⟨hslash, hstar⟩
    rw [← Mark.char_of_ofChar? hmark]
    cases mark <;> decide
  · cases htoken

end Scriptlet
