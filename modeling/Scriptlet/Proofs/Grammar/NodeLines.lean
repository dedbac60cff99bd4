import Scriptlet.Proofs.Grammar.Exact
import Scriptlet.Proofs.Lexeme.Lines

/-!
# Lines of a Program in Source Order

Every node of a program keeps the line of the lexeme that makes it. So the
lines of a program, listed in the order in which its nodes are written, are
lines of its lexemes in the order in which these stand: some lexemes are left
out, such as marks that only separate, and some are taken more than once, since
a block stands on the line of its first lexeme, which may be that of its first
statement as well. `Drawn` is this relation between a phrase and some lines.

The rules of the grammar carry it from phrases to whole programs. As a reading
never goes back to an earlier line, the lexemes of a source stand on lines that
do not decrease, and the lines of the program inherit that.

## Main definitions

* `Node`: A node of a program, as far as its line goes.
* `Block.nodes`: The nodes of a program in source order.
* `Drawn`: Lines of some lexemes of a phrase, in their order.

## Theorems

* `ordered_of_drawn`: What is drawn from an ordered phrase is ordered.
* `ordered_input`, `within_input`: The lexemes of a source are ordered by their
  lines, and stand on lines that the source has.
* `drawn_of_parse`: The lines of a program are drawn from the lexemes of its
  source.
-/

namespace Scriptlet

open Outcome Grammar

/-- A node of a program, as far as its line goes. -/
inductive Node where
  | statement (line : Nat)
  | param (line : Nat)
  | expr (line : Nat)
  | block (line : Nat)
  deriving DecidableEq, Repr

/-- The line that a node stands on. -/
def Node.line : Node → Nat
  | .statement line => line
  | .param line => line
  | .expr line => line
  | .block line => line

/-- The nodes of an expression in source order: a sign before its operand, and
    any other operator between its operands. -/
def Expr.nodes : Expr → List Node
  | .number _ line | .literal _ line | .var _ line => [.expr line]
  | .arith _ left right line => left.nodes ++ .expr line :: right.nodes
  | .signed _ operand line => .expr line :: operand.nodes
  | .compare _ left right line => left.nodes ++ .expr line :: right.nodes

mutual

/-- The nodes of a statement in source order, itself before its parts. An empty
    statement has no line. -/
def Statement.nodes : Statement → List Node
  | .assign _ _ value line => .statement line :: value.nodes
  | .branch condition whenTrue whenFalse line =>
    .statement line :: (condition.nodes ++ (whenTrue.nodes ++
      match whenFalse with
      | some block => block.nodes
      | none => []))
  | .function _ params body line =>
    .statement line :: (params.map (fun param => .param param.line) ++ body.nodes)
  | .print value line => .statement line :: value.nodes
  | .empty => []

/-- The nodes of a block in source order, itself before its statements. -/
def Block.nodes : Block → List Node
  | .mk statements line => .block line :: nodesOfList statements

/-- The nodes of some statements in source order. -/
def nodesOfList : List Statement → List Node
  | [] => []
  | statement :: rest => statement.nodes ++ nodesOfList rest

end

theorem nodesOfList_concat (statements : List Statement) (last : Statement) :
    nodesOfList (statements ++ [last]) = nodesOfList statements ++ last.nodes := by
  induction statements with
  | nil => simp only [List.nil_append, nodesOfList, List.append_nil]
  | cons statement rest ih =>
      simp only [List.cons_append, nodesOfList, ih, List.append_assoc]

/-! ### Lines drawn from a phrase -/

/-- Lines of some lexemes of a phrase, in their order. A lexeme may be passed
    over, and it may be taken more than once. -/
inductive Drawn : List Lexeme → List Nat → Prop where
  | done {phrase : List Lexeme} : Drawn phrase []
  | skip {lexeme : Lexeme} {phrase : List Lexeme} {lines : List Nat} (later : Drawn phrase lines) :
      Drawn (lexeme :: phrase) lines
  | take {lexeme : Lexeme} {phrase : List Lexeme} {lines : List Nat}
      (later : Drawn (lexeme :: phrase) lines) :
      Drawn (lexeme :: phrase) (lexeme.line :: lines)

section Drawn

variable {phrase first second : List Lexeme} {lines others : List Nat}

theorem drawn_append_left (h : Drawn second lines) : Drawn (first ++ second) lines := by
  induction first with
  | nil => exact h
  | cons lexeme first ih => exact .skip ih

/-- Lines drawn from two phrases, one behind the other. -/
theorem drawn_append (hfirst : Drawn first lines) (hsecond : Drawn second others) :
    Drawn (first ++ second) (lines ++ others) := by
  induction hfirst with
  | done => exact drawn_append_left hsecond
  | skip later ih => exact .skip ih
  | take later ih => exact .take ih

theorem drawn_append_right (h : Drawn first lines) : Drawn (first ++ second) lines := by
  have hboth : Drawn (first ++ second) (lines ++ []) := drawn_append h .done
  rw [List.append_nil] at hboth
  exact hboth

theorem exists_of_drawn (h : Drawn phrase lines) {line : Nat} (hmem : line ∈ lines) :
    ∃ lexeme ∈ phrase, lexeme.line = line := by
  induction h with
  | done => cases hmem
  | skip later ih =>
      rcases ih hmem with ⟨found, hfound, hline⟩
      exact ⟨found, List.mem_cons_of_mem _ hfound, hline⟩
  | take later ih =>
      rcases List.mem_cons.mp hmem with rfl | hrest
      · exact ⟨_, List.mem_cons_self, rfl⟩
      · exact ih hrest

/-- What is drawn from a phrase whose lines do not decrease does not decrease. -/
theorem ordered_of_drawn (h : Drawn phrase lines)
    (hordered : (phrase.map Lexeme.line).Pairwise (· ≤ ·)) : lines.Pairwise (· ≤ ·) := by
  induction h with
  | done => exact List.Pairwise.nil
  | skip later ih => exact ih (List.pairwise_cons.mp hordered).2
  | take later ih =>
      refine List.pairwise_cons.mpr ⟨fun line hline => ?_, ih hordered⟩
      -- What is drawn later is the line of this lexeme once more, or of one behind it.
      rcases exists_of_drawn later hline with ⟨found, hfound, rfl⟩
      rcases List.mem_cons.mp hfound with rfl | hbehind
      · exact Nat.le_refl _
      · exact (List.pairwise_cons.mp hordered).1 _ (List.mem_map_of_mem hbehind)

theorem drawn_single (lexeme : Lexeme) : Drawn [lexeme] [lexeme.line] := .take .done

end Drawn

/-! ### Phrases of the grammar -/

-- By recursion over the derivation, as all that follows for phrases.
mutual

theorem drawn_factor : ∀ {levels : Nat} {phrase : List Lexeme} {expr : Expr},
    IsFactor levels phrase expr → Drawn phrase (expr.nodes.map Node.line)
  | _, _, _, .integer _ => drawn_single _
  | _, _, _, .name _ => drawn_single _
  | _, _, _, .signed _ inner => .take (.skip (drawn_factor inner))
  | _, _, _, .parens _ inner _ => .skip (drawn_append_right (drawn_sum inner))

theorem drawn_term : ∀ {levels : Nat} {phrase : List Lexeme} {expr : Expr},
    IsTerm levels phrase expr → Drawn phrase (expr.nodes.map Node.line)
  | _, _, _, .factor only => drawn_factor only
  | _, _, _, .more before token last => by
      rw [Expr.nodes, List.map_append]
      exact drawn_append (drawn_term before) (.take (.skip (drawn_factor last)))

theorem drawn_sum : ∀ {levels : Nat} {phrase : List Lexeme} {expr : Expr},
    IsSum levels phrase expr → Drawn phrase (expr.nodes.map Node.line)
  | _, _, _, .term only => drawn_term only
  | _, _, _, .more before token last => by
      rw [Expr.nodes, List.map_append]
      exact drawn_append (drawn_sum before) (.take (.skip (drawn_term last)))

end

section Phrases

variable {levels : Nat} {phrase : List Lexeme} {expr : Expr}

theorem drawn_value (h : IsValue levels phrase expr) : Drawn phrase (expr.nodes.map Node.line) := by
  cases h with
  | string token => exact drawn_single _
  | bool token => exact drawn_single _
  | sum only => exact drawn_sum only

theorem drawn_side (h : IsSide levels phrase expr) : Drawn phrase (expr.nodes.map Node.line) := by
  cases h with
  | bool token => exact drawn_single _
  | sum only => exact drawn_sum only

theorem drawn_condition (h : IsCondition levels phrase expr) :
    Drawn phrase (expr.nodes.map Node.line) := by
  cases h with
  | bool token => exact drawn_single _
  | compare side token other =>
      rw [Expr.nodes, List.map_append]
      exact drawn_append (drawn_side side) (.take (.skip (drawn_sum other)))

theorem drawn_param {param : Param} (h : IsParam phrase param) : Drawn phrase [param.line] := by
  cases h with
  | mk named token typed => exact .take .done

theorem drawn_params {params : List Param} (h : IsParams phrase params) :
    Drawn phrase (params.map Param.line) := by
  induction h with
  | single only => exact drawn_param only
  | more before token last ih =>
      rw [List.map_append]
      exact drawn_append ih (.skip (drawn_param last))

theorem drawn_signature {params : List Param} (h : IsSignature phrase params) :
    Drawn phrase (params.map Param.line) := by
  cases h with
  | nothing => exact .done
  | params some => exact drawn_params some

/-- The lines of a list and that of the block which it is, with the lexeme
    behind the list. -/
theorem drawn_block {statements : List Statement} (behind : Lexeme)
    (h : Drawn phrase ((nodesOfList statements).map Node.line)) :
    Drawn (phrase ++ [behind])
      ((Block.mk statements (firstLine phrase behind)).nodes.map Node.line) := by
  rw [Block.nodes, List.map_cons]
  have hlist : Drawn (phrase ++ [behind]) ((nodesOfList statements).map Node.line) :=
    drawn_append_right h
  -- The block stands on the line of the first lexeme, be it of the list or behind it.
  cases phrase with
  | nil => exact .take hlist
  | cons lexeme phrase => exact .take hlist

end Phrases

-- The first lexeme gives a statement its line. Marks and keywords behind it are passed over, but for
-- the one that a block may take its line from.
mutual

theorem drawn_statement : ∀ {levels : Nat} {phrase : List Lexeme} {statement : Statement},
    IsStatement levels phrase statement → Drawn phrase (statement.nodes.map Node.line)
  | _, _, _, .declare named separates typed token valued =>
      .take (.skip (.skip (.skip (.skip (drawn_value valued)))))
  | _, _, _, .assign named token valued => .take (.skip (.skip (drawn_value valued)))
  | _, _, _, .print token opens valued closes =>
      .take (.skip (.skip (drawn_append_right (drawn_value valued))))
  | _, _, _, .branch token opens decides closes block => by
      rw [Statement.nodes, List.append_nil, List.map_cons, List.map_append]
      refine .take (.skip (.skip (drawn_append (drawn_condition decides) ?_)))
      exact .skip (drawn_braced block)
  | _, _, _, .choice token opens decides closes block otherwise other => by
      rw [Statement.nodes, List.map_cons, List.map_append, List.map_append]
      refine .take (.skip (.skip (drawn_append (drawn_condition decides) ?_)))
      exact .skip (drawn_append (drawn_braced block) (.skip (drawn_braced other)))
  | _, _, _, .function token named opens declares closes block => by
      rw [Statement.nodes, List.map_cons, List.map_append, List.map_map]
      refine .take (.skip (.skip (.skip (drawn_append (drawn_signature declares) ?_))))
      exact .skip (drawn_braced block)
  | _, _, _, .empty => .done

theorem drawn_list : ∀ {levels : Nat} {phrase : List Lexeme} {statements : List Statement},
    IsList levels phrase statements → Drawn phrase ((nodesOfList statements).map Node.line)
  | _, _, _, .single only => by
      rw [nodesOfList, nodesOfList, List.append_nil]
      exact drawn_statement only
  | _, _, _, .separated before token last => by
      rw [nodesOfList_concat, List.map_append]
      exact drawn_append (drawn_list before) (.skip (drawn_statement last))
  | _, _, _, .adjacent before behind closed starts last => by
      rw [nodesOfList_concat, List.map_append]
      exact drawn_append (drawn_list before) (drawn_statement last)

theorem drawn_braced : ∀ {levels : Nat} {phrase : List Lexeme} {block : Block},
    IsBraced levels phrase block → Drawn phrase (block.nodes.map Node.line)
  | _, _, _, .mk _ inner _ => .skip (drawn_block _ (drawn_list inner))

end

/-! ### Lexemes of a source -/

section Reading

variable {cursor after : Cursor}

/-- A reading moves over some text, and its lexeme stands where it ends. -/
theorem line_of_read? {reading : Except LexicalError Lexeme}
    (h : cursor.read? = some (reading, after)) :
    (∃ passed, cursor.rest = passed ++ after.rest ∧
      after.line = cursor.line + Text.breaks passed) ∧
    ∀ lexeme, reading = .ok lexeme → lexeme.line = after.line := by
  rcases read?_eq_some h with ⟨scanned, hscan, rfl, houtcome⟩
  refine ⟨⟨(gap cursor.rest).1 ++ scanned.text, ?_, ?_⟩, fun lexeme hlexeme => ?_⟩
  · have hskipped : (gap cursor.rest).1 ++ cursor.skipGap.rest = cursor.rest :=
      gap_append cursor.rest
    rw [← scan?_append hscan] at hskipped
    rw [List.append_assoc]
    exact hskipped.symm
  · rw [Text.breaks_append, ← Nat.add_assoc]
    rfl
  · rcases houtcome with ⟨token, _, hreading⟩ | ⟨fault, _, hreading⟩
    · rw [hreading] at hlexeme
      cases hlexeme
      rfl
    · rw [hreading] at hlexeme
      cases hlexeme

theorem input_of_ok {first : Lexeme} (h : cursor.read? = some (.ok first, after)) :
    cursor.scan.input = first :: after.scan.input := by
  rw [scan_of_ok h]
  simp only [Scan.input]
  cases after.scan.ending with
  | ok eof => rfl
  | error e => rfl

/-- From a cursor on, lexemes stand on its line or below, none above the one
    before it, and none below the text that is ahead. -/
theorem lines_of_scan (cursor : Cursor) :
    (cursor.scan.input.map Lexeme.line).Pairwise (· ≤ ·) ∧
      ∀ lexeme ∈ cursor.scan.input,
        cursor.line ≤ lexeme.line ∧ lexeme.line ≤ cursor.line + Text.breaks cursor.rest := by
  -- A reading leaves less text ahead, so the induction is on its length.
  induction hlength : cursor.rest.length using Nat.strongRecOn generalizing cursor with
  | ind length ih =>
    cases hread : cursor.read? with
    | none =>
        rw [scan_of_none hread]
        refine ⟨List.pairwise_singleton _ _, fun lexeme hmem => ?_⟩
        rw [List.mem_singleton.mp hmem]
        -- The end stands behind the gap that is ahead.
        have hgap := congrArg Text.breaks (gap_append cursor.rest)
        rw [Text.breaks_append] at hgap
        simp only [Cursor.eof, Cursor.skipGap, Cursor.pass]
        omega
    | some pair =>
        rcases pair with ⟨reading, after⟩
        cases reading with
        | error e =>
            rw [scan_of_error hread]
            refine ⟨List.Pairwise.nil, fun lexeme hmem => ?_⟩
            cases hmem
        | ok first =>
            rcases line_of_read? hread with ⟨⟨passed, hrest, hline⟩, hfirst⟩
            have hbreaks := congrArg Text.breaks hrest
            rw [Text.breaks_append] at hbreaks
            rcases ih after.rest.length (hlength ▸ Cursor.length_of_read? hread) after rfl with
              ⟨hordered, hwithin⟩
            rw [input_of_ok hread, List.map_cons, List.pairwise_cons, List.forall_mem_cons,
              hfirst first rfl]
            refine ⟨⟨?_, hordered⟩, ?_, fun lexeme hmem => ?_⟩
            · intro line hmem
              rcases List.mem_map.mp hmem with ⟨lexeme, hlexeme, rfl⟩
              exact (hwithin lexeme hlexeme).1
            · omega
            · have := hwithin lexeme hmem
              omega

end Reading

section Parsed

variable {source : String} {program : Block}

/-- The lexemes that a source is read as are ordered by their lines. -/
theorem ordered_input (source : String) :
    ((Scan.ofSource source).input.map Lexeme.line).Pairwise (· ≤ ·) :=
  (lines_of_scan (Cursor.start source)).1

/-- They stand on lines that the source has. -/
theorem within_input {lexeme : Lexeme} (h : lexeme ∈ (Scan.ofSource source).input) :
    1 ≤ lexeme.line ∧ lexeme.line ≤ 1 + lineFeeds source := by
  rw [lineFeeds_eq]
  exact (lines_of_scan (Cursor.start source)).2 lexeme h

/-- The lines of a program are drawn from the lexemes of its source. -/
theorem drawn_of_parse (h : parse source = .ok program) :
    Drawn (Scan.ofSource source).input (program.nodes.map Node.line) := by
  rcases parse_eq_ok.mp h with ⟨rest, hprogram⟩
  rcases Eager.program_eq_ok.mp hprogram with ⟨hlist, eof, tail, rfl, _⟩
  rcases Eager.reads_statements (maxNesting + 1) _ _ _ hlist with
    ⟨phrase, items, first, behind, hphrase, hfirst, hitems, rfl⟩
  have hblock := drawn_block eof (drawn_list hitems)
  rw [Eager.firstLine_eq (hphrase.symm.trans hfirst)] at hblock
  have hinput : (Scan.ofSource source).input = (phrase ++ [eof]) ++ tail := by
    rw [hphrase, List.append_assoc, List.singleton_append]
  rw [hinput]
  exact drawn_append_right hblock

theorem ordered_of_parse (h : parse source = .ok program) :
    (program.nodes.map Node.line).Pairwise (· ≤ ·) :=
  ordered_of_drawn (drawn_of_parse h) (ordered_input source)

theorem within_of_parse (h : parse source = .ok program) {node : Node}
    (hnode : node ∈ program.nodes) :
    1 ≤ node.line ∧ node.line ≤ 1 + lineFeeds source := by
  rcases exists_of_drawn (drawn_of_parse h) (List.mem_map_of_mem hnode) with
    ⟨lexeme, hlexeme, hline⟩
  rw [← hline]
  exact within_input hlexeme

end Parsed

end Scriptlet
