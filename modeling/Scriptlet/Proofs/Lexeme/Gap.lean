import Scriptlet.Proofs.Lexeme.Division

/-!
# What a Gap Is

Text that may stand between tokens, said without a word on how it is found:
blank characters and closed comments, in any order. A comment is text between
its opening and its closing mark that holds no closing mark itself.

Skipping agrees with this in both directions. What is skipped is such text; and
where such text stands in front of something that starts neither a blank nor a
closed comment, it is skipped as a whole and nothing else is.

## Main definitions

* `IsGap`: Blank characters and closed comments.
* `Solid`: Text that no gap starts.

## Theorems

* `closing?_iff`: Where the first closing mark is.
* `comment?_append`: A closed comment is found at its first closing mark.
* `isGap_gap`: What is skipped is a gap.
* `gap_append_isGap`: A gap at the front is skipped as a whole.
* `solid_gap`: Behind what is skipped, text is solid.
-/

namespace Scriptlet

/-- A text is made of blank characters and closed comments. -/
inductive IsGap : List Char → Prop where
  | nil : IsGap []
  | blank {c : Char} {text : List Char} (blank : Text.isBlank c = true) (rest : IsGap text) :
      IsGap (c :: text)
  | comment {body text : List Char} (first : ¬ ['*', '/'] <:+: body) (rest : IsGap text) :
      IsGap ('/' :: '*' :: (body ++ '*' :: '/' :: text))

/-- A text that no gap starts. -/
def Solid (text : List Char) : Prop := gap text = ([], text)

/-! ### Comments -/

/-- In front of a closing mark, a text without one holds no first half of one
    either. -/
theorem not_closing_of_cons {c : Char} {body : List Char}
    (h : ¬ ['*', '/'] <:+: c :: body) (after : List Char) :
    ∀ rest, c = '*' → body ++ '*' :: '/' :: after = '/' :: rest → False := by
  intro rest hstar hslash
  cases body with
  | nil =>
      rw [List.nil_append, List.cons.injEq] at hslash
      exact absurd hslash.1 (by decide)
  | cons d body =>
      rw [List.cons_append, List.cons.injEq] at hslash
      refine h ⟨[], body, ?_⟩
      rw [hstar, hslash.1]
      rfl

theorem closing?_append {body : List Char} (h : ¬ ['*', '/'] <:+: body) (after : List Char) :
    closing? (body ++ '*' :: '/' :: after) = some (body ++ ['*', '/'], after) := by
  induction body with
  | nil => rfl
  | cons c body ih =>
      have hbody : ¬ ['*', '/'] <:+: body := fun hin => h (List.infix_cons hin)
      have hskip := not_closing_of_cons h after
      rw [List.cons_append, closing?, ih hbody]
      · rfl
      · exact hskip

theorem closing?_iff {text found after : List Char} :
    closing? text = some (found, after) ↔
      ∃ body, ¬ ['*', '/'] <:+: body ∧ found = body ++ ['*', '/'] ∧
        text = body ++ '*' :: '/' :: after := by
  constructor
  · intro h
    fun_induction closing? text generalizing found after with
    | case1 => cases h
    | case2 rest =>
        cases h
        exact ⟨[], by decide, rfl, rfl⟩
    | case3 c rest hskip ih =>
        rcases Option.map_eq_some_iff.mp h with ⟨⟨inner, tail⟩, hrest, hpair⟩
        cases hpair
        rcases ih hrest with ⟨body, hbody, rfl, rfl⟩
        refine ⟨c :: body, fun hin => ?_, rfl, rfl⟩
        rcases List.infix_cons_iff.mp hin with hfront | hbehind
        · -- The mark would start here, and the text was found not to start with one.
          rcases hfront with ⟨later, hlater⟩
          simp only [List.cons_append, List.nil_append, List.cons.injEq] at hlater
          exact hskip (later ++ '*' :: '/' :: after) hlater.1.symm
            (by rw [← hlater.2, List.cons_append])
        · exact hbody hbehind
  · rintro ⟨body, hbody, rfl, rfl⟩
    exact closing?_append hbody after

theorem closing?_eq_none {text : List Char} (h : closing? text = none) :
    ¬ ['*', '/'] <:+: text := by
  fun_induction closing? text with
  | case1 => decide
  | case2 rest => cases h
  | case3 c rest hskip ih =>
      intro hin
      rcases List.infix_cons_iff.mp hin with ⟨later, hlater⟩ | hbehind
      · simp only [List.cons_append, List.nil_append, List.cons.injEq] at hlater
        exact hskip later hlater.1.symm hlater.2.symm
      · exact ih (Option.map_eq_none_iff.mp h) hbehind

theorem comment?_append {body : List Char} (h : ¬ ['*', '/'] <:+: body) (after : List Char) :
    comment? ('/' :: '*' :: (body ++ '*' :: '/' :: after)) =
      some ('/' :: '*' :: (body ++ ['*', '/']), after) := by
  rw [comment?, closing?_append h after]
  rfl

theorem comment?_eq_some_iff {text found after : List Char} :
    comment? text = some (found, after) ↔
      ∃ body, ¬ ['*', '/'] <:+: body ∧ found = '/' :: '*' :: (body ++ ['*', '/']) ∧
        text = '/' :: '*' :: (body ++ '*' :: '/' :: after) := by
  constructor
  · intro h
    unfold comment? at h
    split at h
    · rcases Option.map_eq_some_iff.mp h with ⟨⟨inner, tail⟩, hrest, hpair⟩
      cases hpair
      rcases closing?_iff.mp hrest with ⟨body, hbody, rfl, rfl⟩
      exact ⟨body, hbody, rfl, rfl⟩
    · cases h
  · rintro ⟨body, hbody, rfl, rfl⟩
    exact comment?_append hbody after

/-! ### Gaps -/

theorem isGap_append {first second : List Char} (h : IsGap first) (hsecond : IsGap second) :
    IsGap (first ++ second) := by
  induction h with
  | nil => exact hsecond
  | blank blank _ ih => exact .blank blank ih
  | @comment body rest first _ ih =>
      have hcomment := IsGap.comment first ih
      simpa only [List.cons_append, List.append_assoc] using hcomment

theorem isGap_of_blank {text : List Char} (h : ∀ c ∈ text, Text.isBlank c = true) :
    IsGap text := by
  induction text with
  | nil => exact .nil
  | cons c rest ih =>
      exact .blank (h c List.mem_cons_self) (ih fun d hd => h d (List.mem_cons_of_mem c hd))

/-- What is skipped is a gap. -/
theorem isGap_gap (text : List Char) : IsGap (gap text).1 := by
  fun_induction gap text with
  | case1 => exact .nil
  | case2 c rest hblank skipped after heq ih =>
      rw [heq] at ih
      exact .blank hblank ih
  | case3 c rest hblank found tail hcomment skipped after heq ih =>
      rw [heq] at ih
      rcases comment?_eq_some_iff.mp hcomment with ⟨body, hbody, rfl, _⟩
      have h := IsGap.comment hbody ih
      rwa [List.cons_append, List.cons_append, List.append_assoc, List.cons_append,
        List.singleton_append]
  | case4 => exact .nil

theorem gap_blank {c : Char} (h : Text.isBlank c = true) (rest : List Char) :
    gap (c :: rest) = (c :: (gap rest).1, (gap rest).2) := by
  rw [gap, if_pos h]

theorem gap_comment {c : Char} {rest found tail : List Char} (hblank : ¬ Text.isBlank c = true)
    (h : comment? (c :: rest) = some (found, tail)) :
    gap (c :: rest) = (found ++ (gap tail).1, (gap tail).2) := by
  rw [gap, if_neg hblank]
  split
  · rename_i found' tail' h'
    rw [h] at h'
    cases h'
    rfl
  · rename_i h'
    rw [h] at h'
    cases h'

/-- A gap at the front is skipped as a whole, and what follows it is skipped as
    if it stood alone. -/
theorem gap_append_isGap {skipped : List Char} (h : IsGap skipped) (text : List Char) :
    gap (skipped ++ text) = (skipped ++ (gap text).1, (gap text).2) := by
  induction h with
  | nil => rfl
  | blank blank _ ih => rw [List.cons_append, gap_blank blank, ih, List.cons_append]
  | @comment body rest first _ ih =>
      rw [List.cons_append, List.cons_append, List.append_assoc, List.cons_append,
        List.cons_append, gap_comment (by decide) (comment?_append first (rest ++ text)), ih]
      simp only [List.cons_append, List.append_assoc, List.nil_append]

/-- A gap in front of solid text is skipped as a whole, and nothing else is. -/
theorem gap_append_solid {skipped text : List Char} (h : IsGap skipped) (hsolid : Solid text) :
    gap (skipped ++ text) = (skipped, text) := by
  rw [gap_append_isGap h, hsolid, List.append_nil]

/-- Text is solid if it starts neither with a blank nor with a closed comment. -/
theorem solid_of_comment? {c : Char} {rest : List Char} (hblank : ¬ Text.isBlank c = true)
    (hcomment : comment? (c :: rest) = none) : Solid (c :: rest) := by
  rw [Solid, gap, if_neg hblank]
  split
  · rename_i h
    rw [hcomment] at h
    cases h
  · rfl

/-- Text is solid if it starts with a character that is neither blank nor the
    first of an opening mark. -/
theorem solid_cons {c : Char} {rest : List Char} (hblank : Text.isBlank c = false)
    (hcomment : c = '/' → rest.head? ≠ some '*') : Solid (c :: rest) := by
  refine solid_of_comment? (by rw [hblank]; exact Bool.false_ne_true) ?_
  rw [comment?]
  intro tail h
  rw [List.cons.injEq] at h
  exact hcomment h.1 (by rw [h.2]; rfl)

theorem solid_nil : Solid [] := by
  rw [Solid, gap]

/-- Behind a gap that was skipped there is no other. -/
theorem solid_gap (text : List Char) : Solid (gap text).2 := by
  fun_induction gap text with
  | case1 => exact solid_nil
  | case2 c rest hblank skipped after heq ih =>
      rw [heq] at ih
      exact ih
  | case3 c rest hblank found tail hcomment skipped after heq ih =>
      rw [heq] at ih
      exact ih
  | case4 c rest hblank hcomment => exact solid_of_comment? hblank hcomment

theorem not_isBlank_of_solid {c : Char} {rest : List Char} (h : Solid (c :: rest)) :
    ¬ Text.isBlank c = true := by
  intro hblank
  rw [Solid, gap_blank hblank] at h
  cases h

/-- A comment that opens solid text is never closed. -/
theorem not_closed_of_solid {text : List Char} (h : Solid ('/' :: '*' :: text)) :
    ¬ ['*', '/'] <:+: text := by
  intro hclosed
  cases hfound : closing? text with
  | none => exact closing?_eq_none hfound hclosed
  | some division =>
      rcases closing?_iff.mp hfound with ⟨body, hbody, _, rfl⟩
      rw [Solid, gap_comment (by decide) (comment?_append hbody division.2)] at h
      cases h

end Scriptlet
