import Scriptlet.Proofs.Lexeme.Passing
import Scriptlet.Proofs.Lexeme.Spelling

/-!
# One Reading and All of Them

What one reading does, said once: it passes the gap ahead, then the text that
was scanned, and gives what the scan gave. There is none exactly if only a gap
is ahead.

All readings of a source are one reading and those from behind it, and so are
the lexemes of a reader that stops at the first error. The end of the input is
never among them, because no text spells it.

## Main definitions

* `Cursor.taking`: The reading of a text that is scanned.
* `Cursor.scan`: What a reader gets from a cursor on.

## Theorems

* `next_eq`, `read?_eq`: A reading takes what is scanned.
* `read?_eq_some`: What a reading is.
* `read?_eq_none`: When there is none.
* `scan_of_none`, `scan_of_error`, `scan_of_ok`: A scan by its first reading.
* `wellFormed_of_mem`: The lexemes of a source have well-formed tokens.
* `tokenize_eq_ok`, `tokenize_eq_error`: What the lexemes of a source are.
-/

namespace Scriptlet

/-! ### One reading -/

/-- The reading of a text that is scanned behind the gap, and the place behind
    it. The line of a fault is the one on which the reading began. -/
def Cursor.taking (cursor : Cursor) (scanned : Scanned) : Except LexicalError Lexeme × Cursor :=
  let here := cursor.skipGap
  let there := here.pass scanned.text scanned.rest
  match scanned.outcome with
  | .ok token => (.ok ⟨token, ⟨here.offset, there.offset⟩, there.line⟩, there)
  | .error fault =>
    (.error ⟨fault, String.ofList scanned.text, here.offset, cursor.line⟩, there)

/-- A reading takes what is scanned, and is the end of the input if there is
    nothing to scan. -/
theorem next_eq (cursor : Cursor) :
    cursor.next = ((scan? cursor.skipGap.rest).map cursor.taking).getD
      (.ok cursor.skipGap.eof, cursor.skipGap) := by
  rw [Cursor.next, Cursor.seek_eq]
  cases hscan : scan? cursor.skipGap.rest with
  | none => rfl
  | some scanned =>
      have hfragment := Cursor.upTo_pass (scan?_append hscan).symm
      simp only [Option.map_some, Option.getD_some, Cursor.taking]
      cases houtcome : scanned.outcome with
      | ok token => rfl
      | error fault => simp only [hfragment]

theorem read?_eq (cursor : Cursor) :
    cursor.read? = (scan? cursor.skipGap.rest).map cursor.taking := by
  rw [Cursor.read?, next_eq]
  cases hscan : scan? cursor.skipGap.rest with
  | none => rfl
  | some scanned =>
      simp only [Option.map_some, Option.getD_some, Cursor.taking]
      cases houtcome : scanned.outcome with
      | ok token => simp only [if_neg (scan?_wellFormed hscan houtcome).ne_eof]
      | error fault => rfl

/-- A reading passes the gap ahead and the text that is scanned behind it. -/
theorem read?_eq_some {cursor after : Cursor} {reading : Except LexicalError Lexeme}
    (h : cursor.read? = some (reading, after)) :
    ∃ scanned, scan? cursor.skipGap.rest = some scanned ∧
      after = cursor.skipGap.pass scanned.text scanned.rest ∧
      ((∃ token, scanned.outcome = .ok token ∧
          reading = .ok ⟨token, ⟨cursor.skipGap.offset, after.offset⟩, after.line⟩) ∨
        ∃ fault, scanned.outcome = .error fault ∧
          reading =
            .error ⟨fault, String.ofList scanned.text, cursor.skipGap.offset, cursor.line⟩) := by
  rw [read?_eq] at h
  rcases Option.map_eq_some_iff.mp h with ⟨scanned, hscan, hpair⟩
  refine ⟨scanned, hscan, ?_⟩
  rw [Cursor.taking] at hpair
  split at hpair
  · rename_i token htoken
    cases hpair
    exact ⟨rfl, Or.inl ⟨token, htoken, rfl⟩⟩
  · rename_i fault hfault
    cases hpair
    exact ⟨rfl, Or.inr ⟨fault, hfault, rfl⟩⟩

theorem read?_of_scan? {cursor : Cursor} {scanned : Scanned} {token : Token}
    (h : scan? cursor.skipGap.rest = some scanned) (htoken : scanned.outcome = .ok token) :
    cursor.read? =
      some (.ok ⟨token, ⟨cursor.skipGap.offset,
          (cursor.skipGap.pass scanned.text scanned.rest).offset⟩,
          (cursor.skipGap.pass scanned.text scanned.rest).line⟩,
        cursor.skipGap.pass scanned.text scanned.rest) := by
  simp only [read?_eq, h, Option.map_some, Cursor.taking, htoken]

/-- There is nothing to read exactly if only a gap is ahead. -/
theorem read?_eq_none {cursor : Cursor} : cursor.read? = none ↔ cursor.skipGap.rest = [] := by
  rw [read?_eq, Option.map_eq_none_iff, scan?_eq_none]

theorem read?_wellFormed {cursor after : Cursor} {lexeme : Lexeme}
    (h : cursor.read? = some (.ok lexeme, after)) : lexeme.token.WellFormed := by
  rcases read?_eq_some h with ⟨scanned, hscan, _, ⟨token, htoken, hreading⟩ | ⟨_, _, hreading⟩⟩
  · cases hreading
    exact scan?_wellFormed hscan htoken
  · cases hreading

theorem next_of_none {cursor : Cursor} (h : cursor.read? = none) :
    cursor.next = (.ok cursor.skipGap.eof, cursor.skipGap) := by
  rw [next_eq, ← read?_eq, h, Option.getD_none]

theorem next_of_some {cursor after : Cursor} {reading : Except LexicalError Lexeme}
    (h : cursor.read? = some (reading, after)) : cursor.next = (reading, after) := by
  rw [next_eq, ← read?_eq, h, Option.getD_some]

/-! ### All readings -/

theorem readings_of_none {cursor : Cursor} (h : cursor.read? = none) :
    cursor.readings = ([], cursor.skipGap) := by
  rw [Cursor.readings]
  split
  · rw [next_of_none h]
  · rename_i hread
    rw [h] at hread
    cases hread

theorem readings_of_some {cursor after : Cursor} {reading : Except LexicalError Lexeme}
    (h : cursor.read? = some (reading, after)) :
    cursor.readings = (reading :: after.readings.1, after.readings.2) := by
  rw [Cursor.readings]
  split
  · rename_i hread
    rw [h] at hread
    cases hread
  · rename_i hread
    rw [h] at hread
    cases hread
    rfl

/-- Readings up to the end of the input give well-formed tokens. -/
theorem readings_wellFormed (cursor : Cursor) {lexeme : Lexeme}
    (h : .ok lexeme ∈ cursor.readings.1) : lexeme.token.WellFormed := by
  fun_induction Cursor.readings cursor with
  | case1 cursor hread => cases h
  | case2 cursor reading after hread later finish hlater ih =>
      rcases List.mem_cons.mp h with heq | hmem
      · exact read?_wellFormed (heq ▸ hread)
      · rw [hlater] at ih
        exact ih hmem

/-- What a reader gets from a cursor on that stops at the first error. -/
def Cursor.scan (cursor : Cursor) : Scan := Scan.ofReadings cursor.readings.2.eof cursor.readings.1

theorem scan_of_none {cursor : Cursor} (h : cursor.read? = none) :
    cursor.scan = { lexemes := [], ending := .ok cursor.skipGap.eof } := by
  rw [Cursor.scan, readings_of_none h]
  rfl

theorem scan_of_error {cursor after : Cursor} {e : LexicalError}
    (h : cursor.read? = some (.error e, after)) :
    cursor.scan = { lexemes := [], ending := .error e } := by
  rw [Cursor.scan, readings_of_some h]
  rfl

theorem scan_of_ok {cursor after : Cursor} {lexeme : Lexeme}
    (h : cursor.read? = some (.ok lexeme, after)) :
    cursor.scan = { after.scan with lexemes := lexeme :: after.scan.lexemes } := by
  rw [Cursor.scan, readings_of_some h]
  rfl

theorem mem_of_mem_ofReadings {eof lexeme : Lexeme}
    {readings : List (Except LexicalError Lexeme)}
    (h : lexeme ∈ (Scan.ofReadings eof readings).lexemes) : .ok lexeme ∈ readings := by
  induction readings with
  | nil => cases h
  | cons reading readings ih =>
      cases reading with
      | error e => cases h
      | ok first =>
          rcases List.mem_cons.mp h with rfl | hmem
          · exact List.mem_cons_self
          · exact List.mem_cons_of_mem _ (ih hmem)

/-- A reader that comes to the end comes to the end that it was given. -/
theorem ending_ofReadings {eof found : Lexeme} {readings : List (Except LexicalError Lexeme)}
    (h : (Scan.ofReadings eof readings).ending = .ok found) : found = eof := by
  induction readings with
  | nil =>
      cases h
      rfl
  | cons reading readings ih =>
      cases reading with
      | error e => cases h
      | ok first => exact ih h

/-! ### Sources -/

theorem wellFormed_of_mem {source : String} {lexeme : Lexeme}
    (h : lexeme ∈ (Scan.ofSource source).lexemes) : lexeme.token.WellFormed :=
  readings_wellFormed (Cursor.start source) (mem_of_mem_ofReadings h)

/-- The lexemes of a source are before its end. -/
theorem token_ne_eof_of_mem {source : String} {lexeme : Lexeme}
    (h : lexeme ∈ (Scan.ofSource source).lexemes) : lexeme.token ≠ .eof :=
  (wellFormed_of_mem h).ne_eof

theorem token_eq_eof_of_ending {source : String} {eof : Lexeme}
    (h : (Scan.ofSource source).ending = .ok eof) : eof.token = .eof := by
  rw [ending_ofReadings h]
  rfl

theorem tokenize_eq_ok {source : String} {lexemes : List Lexeme} :
    tokenize source = .ok lexemes ↔
      ∃ eof, (Scan.ofSource source).ending = .ok eof ∧
        (Scan.ofSource source).lexemes = lexemes := by
  rw [tokenize]
  cases (Scan.ofSource source).ending with
  | ok eof => simp only [Except.map, Except.ok.injEq, exists_eq_left']
  | error e => simp only [Except.map, reduceCtorEq, false_and, exists_false]

theorem tokenize_eq_error {source : String} {e : LexicalError} :
    tokenize source = .error e ↔ (Scan.ofSource source).ending = .error e := by
  rw [tokenize]
  cases (Scan.ofSource source).ending with
  | ok eof => simp only [Except.map, reduceCtorEq]
  | error error => simp only [Except.map, Except.error.injEq]

end Scriptlet
