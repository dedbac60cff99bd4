import Scriptlet.Proofs.Run.Course
import Scriptlet.Proofs.Run.Frames
import Scriptlet.Proofs.Run.Plain

/-!
# Running is Plain Execution

A program that is accepted runs as if there were no scopes. The run asks the
scope tree of the whole program for the scope of a block, and looks names up
along the tree; but the scope it gets is the one that was opened inside the
current scope, so the frames stay the way outward from it, and then a stack of
tables is all there is to a context.

The proof goes by the structure of programs. What carries it is that a context
is aligned and that the checker passed where the run is: the first makes names
mean the same on both sides, and the second makes the branch that is entered
aligned again.

## Main definitions

* `Context.plain`: A context without its tree and the scopes of its frames.

## Theorems

* `plain_runStatements`: From a place that is checked, a run is a plain run.
* `aligned_of_occurs`: All contexts of a run are aligned.
* `run_refines_plain`: An accepted program runs as it does plainly, in contexts
  that are aligned.
-/

namespace Scriptlet

open Outcome ScopeTree

/-- A context without its tree and the scopes of its frames. -/
def Context.plain (context : Context) : Plain.State :=
  { values := context.nest, sink := context.sink }

/-- Two sequences correspond if their parts do. -/
theorem mapState_bind {ε σ τ α β : Type} {f : σ → τ} {x : EStateM ε σ α} {y : EStateM ε τ α}
    {g : α → EStateM ε σ β} {k : α → EStateM ε τ β} {s : σ} (hx : mapState f (x s) = y (f s))
    (hg : ∀ a s', x s = .ok a s' → mapState f (g a s') = k a (f s')) :
    mapState f ((x >>= g) s) = (y >>= k) (f s) := by
  rw [bind_apply y k, ← hx]
  cases hs : x s with
  | ok a s' =>
      rw [bind_of_ok hs]
      exact hg a s' hs
  | error e s' =>
      rw [bind_of_error hs]
      rfl

/-! ### Single steps -/

section Steps

variable {context : Context}

theorem eval_of_aligned (h : context.Aligned) (expr : Expr) :
    context.eval expr = Plain.eval context.nest expr := by
  induction expr with
  | number value line => rfl
  | literal value line => rfl
  | var name line =>
      rw [Context.eval, Context.read, Context.get?_of_aligned h]
      rfl
  | arith op left right line ihl ihr => rw [Context.eval, Plain.eval, ihl, ihr]
  | signed sign operand line ih => rw [Context.eval, Plain.eval, ih]
  | compare order left right line ihl ihr => rw [Context.eval, Plain.eval, ihl, ihr]

theorem eval_eq_ok {expr : Expr} {value : Value} {after : Context}
    (h : Run.eval expr context = .ok value after) :
    context.eval expr = .ok value ∧ after = context := by
  unfold Run.eval at h
  cases he : context.eval expr with
  | ok found =>
      rw [he] at h
      cases h
      exact ⟨rfl, rfl⟩
  | error e =>
      rw [he] at h
      cases h

theorem plain_eval (h : context.Aligned) (expr : Expr) :
    mapState Context.plain (Run.eval expr context) = Plain.evaluate expr context.plain := by
  have heval : context.eval expr = Plain.eval context.plain.values expr := eval_of_aligned h expr
  rw [Run.eval, Plain.evaluate, ← heval]
  cases context.eval expr with
  | ok value => rfl
  | error e => rfl

theorem plain_assign (h : context.Aligned) (name : String) (value : Value) (line : Nat) :
    mapState Context.plain (Run.assign name value line context) =
      Plain.assign name value line context.plain := by
  have hnest : (context.assign? name value).map Context.nest =
    context.plain.values.assign? name value := Context.nest_assign? h name value
  rw [Run.assign, Plain.assign, ← hnest]
  cases ha : context.assign? name value with
  | none => rfl
  | some changed =>
      have hsink := Context.sink_assign? ha
      simp only [Option.map_some, mapState, Context.plain, hsink]

theorem plain_print (value : Value) :
    mapState Context.plain (Run.print value context) = Plain.print value context.plain := by
  have hsink : context.plain.sink = context.sink := rfl
  rw [Run.print, Plain.print, hsink]
  cases context.sink.write (value.text ++ "\n") with
  | ok u sink => rfl
  | error e sink => rfl

theorem plain_inBlock {site : Site} {scope : ScopeId} {statements : Run Unit}
    {others : Plain.Exec Unit} (hscope : context.scopes.blockScope? site = some scope)
    (h : mapState Context.plain (statements (context.enter scope)) =
      others (context.enter scope).plain) :
    mapState Context.plain (Run.inBlock site statements context) =
      Plain.inside others context.plain := by
  have hentered : others { context.plain with values := context.plain.values.enter } =
      mapState Context.plain (statements (context.enter scope)) := h.symm
  rw [Run.inBlock, hscope, Plain.inside, hentered]
  simp only []
  -- However the block ends, both sides leave what they entered.
  cases statements (context.enter scope) with
  | ok u after => simp only [mapState, Context.plain, Context.nest_leave, Context.sink_leave]
  | error e after => simp only [mapState, Context.plain, Context.nest_leave, Context.sink_leave]

end Steps

/-- A context stays aligned when it enters a scope that leads outward through
    the current one. -/
theorem aligned_enter {context : Context} {scope : ScopeId} (h : context.Aligned)
    (hscope : context.scopes.ancestors scope =
      scope :: context.scopes.ancestors context.currentScope) :
    (context.enter scope).Aligned := by
  have hframes : (context.enter scope).frames.map Frame.scope =
      scope :: context.frames.map Frame.scope := rfl
  rw [Context.Aligned, hframes, h]
  exact hscope.symm

-- By recursion over the program. The tree that the check had at a place is not the one that the
-- run has, but `Checked` says of the final tree what is needed to enter a block.
mutual

theorem plain_runStatement (site : Site) (index : Nat) (rest : List Statement) :
    ∀ (statement : Statement) {context : Context} {tree : ScopeTree}, context.Aligned →
      Checked context.scopes ⟨site, index, statement :: rest⟩ context.currentScope tree →
      mapState Context.plain (runStatement site index statement context) =
        Plain.runStatement statement context.plain
  | .assign name (some declared) value line, context, tree, halign, _ => by
      rw [runStatement, Plain.runStatement]
      exact mapState_bind (plain_eval halign value) fun assigned after _ => rfl
  | .assign name none value line, context, tree, halign, _ => by
      rw [runStatement, Plain.runStatement]
      refine mapState_bind (plain_eval halign value) fun assigned after hafter => ?_
      rw [(eval_eq_ok hafter).2]
      exact plain_assign halign name assigned line
  | .branch condition whenTrue none line, context, tree, halign, hcheck => by
      rw [runStatement, Plain.runStatement]
      refine mapState_bind (plain_eval halign condition) fun decided after hafter => ?_
      rw [(eval_eq_ok hafter).2]
      match decided with
      | .bool true =>
          -- The scope that is found for the block is inside the current one.
          rcases checked_whenTrue hcheck with ⟨_, _, hscope, hancestors, hinner⟩
          have hentered := aligned_enter halign hancestors
          exact plain_inBlock hscope (plain_runBlock _ whenTrue hentered hinner)
      | .bool false => rfl
      | .int _ | .real _ | .str _ => rfl
  | .branch condition whenTrue (some block) line, context, tree, halign, hcheck => by
      rw [runStatement, Plain.runStatement]
      refine mapState_bind (plain_eval halign condition) fun decided after hafter => ?_
      rw [(eval_eq_ok hafter).2]
      match decided with
      | .bool true =>
          rcases checked_whenTrue hcheck with ⟨_, _, hscope, hancestors, hinner⟩
          have hentered := aligned_enter halign hancestors
          exact plain_inBlock hscope (plain_runBlock _ whenTrue hentered hinner)
      | .bool false =>
          rcases checked_whenFalse hcheck with ⟨_, _, hscope, hancestors, hinner⟩
          have hentered := aligned_enter halign hancestors
          exact plain_inBlock hscope (plain_runBlock _ block hentered hinner)
      | .int _ | .real _ | .str _ => rfl
  | .function name params body line, context, tree, _, _ => by
      rw [runStatement, Plain.runStatement]
      rfl
  | .print value line, context, tree, halign, _ => by
      rw [runStatement, Plain.runStatement]
      refine mapState_bind (plain_eval halign value) fun printed after hafter => ?_
      rw [(eval_eq_ok hafter).2]
      exact plain_print printed
  | .empty, context, tree, _, _ => by
      rw [runStatement, Plain.runStatement]
      rfl

theorem plain_runBlock (site : Site) :
    ∀ (block : Block) {context : Context} {tree : ScopeTree}, context.Aligned →
      Checked context.scopes ⟨site, 0, block.statements⟩ context.currentScope tree →
      mapState Context.plain (runBlock site block context) =
        Plain.runBlock block context.plain
  | .mk statements line, context, tree, halign, hcheck => by
      rw [runBlock, Plain.runBlock]
      exact plain_runStatements site 0 statements halign hcheck

theorem plain_runStatements (site : Site) :
    ∀ (index : Nat) (statements : List Statement) {context : Context} {tree : ScopeTree},
      context.Aligned →
      Checked context.scopes ⟨site, index, statements⟩ context.currentScope tree →
      mapState Context.plain (runStatements site index statements context) =
        Plain.runStatements statements context.plain
  | index, [], context, tree, _, _ => by
      rw [runStatements, Plain.runStatements]
      rfl
  | index, statement :: rest, context, tree, halign, hcheck => by
      rw [runStatements, Plain.runStatements]
      refine mapState_bind (plain_runStatement site index rest statement halign hcheck)
        fun u after hafter => ?_
      -- The statement kept the frames, and the check went on behind it.
      have hshape := keeps_ok (Run.keeps_runStatement site index statement) hafter
      rcases checked_statement hcheck with ⟨next, _, hrest, _⟩
      rw [← hshape.scopes, ← Context.currentScope_of_sameShape hshape] at hrest
      have hafter := Context.aligned_of_sameShape hshape halign
      exact plain_runStatements site (index + 1) rest hafter hrest

end

/-! ### Run and check side by side -/

/-- A run and the check of the same program are at the same place. The run has
    the final tree and is aligned in it; the check has the tree built up to
    there, and passes from there on. -/
structure Accompanied (program : Block) (scopes : ScopeTree) (place : Place) (context : Context)
    (tree : ScopeTree) : Prop where
  reached : CheckReaches program place context.currentScope tree
  checked : Checked scopes place context.currentScope tree
  scopes : context.scopes = scopes
  aligned : context.Aligned

section Accompanied

variable {program : Block} {scopes : ScopeTree} {site : Site} {index : Nat}
  {rest : List Statement} {context : Context} {tree : ScopeTree}

theorem accompanied_start (h : analyze program = .ok scopes) (sink : Sink) :
    Accompanied program scopes ⟨.root 0, 0, program.statements⟩ (Context.start scopes sink)
      .initial := by
  refine ⟨.start, checked_start h, rfl, ?_⟩
  -- The global scope has nothing around it, neither at the start nor at the end.
  have hglobal := ancestors_of_extends (extends_of_checked (checked_start h)) Nat.zero_lt_one
  change [globalScope] = scopes.ancestors globalScope
  rw [globalScope, hglobal, ScopeTree.ancestors]
  rfl

theorem accompanied_next {statement : Statement} {after : Context}
    (h : Accompanied program scopes ⟨site, index, statement :: rest⟩ context tree)
    (hrun : runStatement site index statement context = .ok () after) :
    ∃ next, checkStatement context.currentScope site index statement tree = .ok () next ∧
      Accompanied program scopes ⟨site, index + 1, rest⟩ after next := by
  have hshape := keeps_ok (Run.keeps_runStatement site index statement) hrun
  rcases checked_statement h.checked with ⟨next, hnext, hrest, _⟩
  refine ⟨next, hnext, ?_, ?_, hshape.scopes.trans h.scopes,
    Context.aligned_of_sameShape hshape h.aligned⟩
  · rw [Context.currentScope_of_sameShape hshape]
    exact .next h.reached hnext
  · rw [Context.currentScope_of_sameShape hshape]
    exact hrest

variable {condition : Expr} {whenTrue block : Block} {whenFalse : Option Block} {line : Nat}

theorem entered_of_blockScope? {scope : ScopeId} (hscopes : context.scopes = scopes)
    (h : scopes.blockScope? site = some scope) : context.entered site = context.enter scope := by
  rw [Context.entered, hscopes, h]

theorem accompanied_whenTrue
    (h : Accompanied program scopes
      ⟨site, index, .branch condition whenTrue whenFalse line :: rest⟩ context tree) :
    context.entered (.inside site index .whenTrue) = context.enter tree.size ∧
      Accompanied program scopes ⟨.inside site index .whenTrue, 0, whenTrue.statements⟩
        (context.enter tree.size)
        (tree.opened context.currentScope "if" (.inside site index .whenTrue)) := by
  rcases checked_whenTrue h.checked with ⟨ty, htyped, hscope, hancestors, hinner⟩
  refine ⟨entered_of_blockScope? h.scopes hscope, .whenTrue h.reached htyped, hinner, h.scopes, ?_⟩
  rw [← h.scopes] at hancestors
  exact aligned_enter h.aligned hancestors

theorem accompanied_whenFalse
    (h : Accompanied program scopes
      ⟨site, index, .branch condition whenTrue (some block) line :: rest⟩ context tree) :
    ∃ mid, checkBlock tree.size (.inside site index .whenTrue) whenTrue
        (tree.opened context.currentScope "if" (.inside site index .whenTrue)) = .ok () mid ∧
      context.entered (.inside site index .whenFalse) = context.enter mid.size ∧
      Accompanied program scopes ⟨.inside site index .whenFalse, 0, block.statements⟩
        (context.enter mid.size)
        (mid.opened context.currentScope "else" (.inside site index .whenFalse)) := by
  rcases checked_whenFalse h.checked with ⟨mid, hmid, hscope, hancestors, hinner⟩
  refine ⟨mid, hmid, entered_of_blockScope? h.scopes hscope, .whenFalse h.reached hmid, hinner,
    h.scopes, ?_⟩
  rw [← h.scopes] at hancestors
  exact aligned_enter h.aligned hancestors

end Accompanied

/-- Wherever a run of an accepted program comes, the check has been there. -/
theorem accompanied_of_reaches {program : Block} {scopes : ScopeTree} {sink : Sink}
    {place : Place} {context : Context} (h : analyze program = .ok scopes)
    (hreach : RunReaches program (Context.start scopes sink) place context) :
    ∃ tree, Accompanied program scopes place context tree := by
  induction hreach with
  | start => exact ⟨.initial, accompanied_start h sink⟩
  | next _ hrun ih =>
      rcases ih with ⟨tree, hhere⟩
      rcases accompanied_next hhere hrun with ⟨next, _, hnext⟩
      exact ⟨next, hnext⟩
  | whenTrue _ _ ih =>
      rcases ih with ⟨tree, hhere⟩
      rcases accompanied_whenTrue hhere with ⟨hentered, hinner⟩
      rw [hentered]
      exact ⟨_, hinner⟩
  | whenFalse _ _ ih =>
      rcases ih with ⟨tree, hhere⟩
      rcases accompanied_whenFalse hhere with ⟨mid, _, hentered, hinner⟩
      rw [hentered]
      exact ⟨_, hinner⟩

theorem aligned_of_occurs {program : Block} {scopes : ScopeTree} {sink : Sink}
    {context : Context} (h : analyze program = .ok scopes)
    (hoccurs : Occurs program (Context.start scopes sink) context) :
    context.scopes = scopes ∧ context.Aligned := by
  cases hoccurs with
  | reached hreach =>
      rcases accompanied_of_reaches h hreach with ⟨tree, hhere⟩
      exact ⟨hhere.scopes, hhere.aligned⟩
  | failed hreach hfail =>
      rcases accompanied_of_reaches h hreach with ⟨tree, hhere⟩
      -- A statement that fails has left the frames it entered.
      have hshape := keeps_error (Run.keeps_runStatement _ _ _) hfail
      have haligned := Context.aligned_of_sameShape hshape hhere.aligned
      exact ⟨hshape.scopes.trans hhere.scopes, haligned⟩

theorem plain_execute {program : Block} {scopes : ScopeTree} (h : analyze program = .ok scopes)
    (sink : Sink) :
    mapState Context.plain (execute program scopes sink) = Plain.execute program sink := by
  have hstart := accompanied_start h sink
  exact plain_runBlock (.root 0) program hstart.aligned hstart.checked

/-- An accepted program runs as the plain execution says, with the same result,
    the same error at the same line and the same output. At every moment the
    frames are for the scopes from the current one outward, each of them
    once. -/
theorem run_refines_plain {program : Block} {scopes : ScopeTree}
    (h : analyze program = .ok scopes) (sink : Sink) :
    (∀ context, Occurs program (Context.start scopes sink) context →
      context.scopes = scopes ∧
        context.frames.map Frame.scope = scopes.ancestors context.currentScope ∧
        (context.frames.map Frame.scope).Nodup) ∧
      Occurs program (Context.start scopes sink) (state (execute program scopes sink)) ∧
      mapState Context.plain (execute program scopes sink) = Plain.execute program sink := by
  refine ⟨fun context hoccurs => ?_, occurs_execute program scopes sink, plain_execute h sink⟩
  rcases aligned_of_occurs h hoccurs with ⟨hscopes, halign⟩
  refine ⟨hscopes, ?_, Context.nodup_of_aligned halign⟩
  rw [← hscopes]
  exact halign

/-- A program that declares `x` anew inside a branch, assigns to that one from
    further in, and prints both. -/
def shadowing : Block :=
  .mk
    [ .assign "x" (some .int) (.number 1 1) 1,
      .function "f" [{ name := "x", ty := .bool, line := 2 }] (.mk [.empty] 2) 2,
      .branch (.compare .less (.var "x" 3) (.number 2 3) 3)
        (.mk
          [ .assign "x" (some .float) (.arith .div (.var "x" 4) (.number 2 4) 4) 4,
            .branch (.literal (.bool true) 5)
              (.mk [.assign "x" none (.signed .negate (.var "x" 5) 5) 5] 5)
              (some (.mk [.empty] 5)) 5,
            .print (.var "x" 6) 6 ] 4)
        none 3,
      .print (.var "x" 7) 7 ] 1

/-- A run of `shadowing` into a small sink is a plain run, and ends with the
    frames aligned. -/
theorem run_refines_plain_shadowing :
    ∃ scopes, analyze shadowing = .ok scopes ∧
      mapState Context.plain (execute shadowing scopes (.bounded 6)) =
        Plain.execute shadowing (.bounded 6) ∧
      (state (execute shadowing scopes (.bounded 6))).Aligned := by
  have haccepted : (analyze shadowing).isOk = true := by decide +kernel
  cases hanalyze : analyze shadowing with
  | error e =>
      rw [hanalyze] at haccepted
      cases haccepted
  | ok scopes =>
      rcases run_refines_plain hanalyze (Sink.bounded 6) with ⟨haligned, hoccurs, hplain⟩
      rcases haligned _ hoccurs with ⟨hscopes, hframes, -⟩
      refine ⟨scopes, rfl, hplain, ?_⟩
      rw [Context.Aligned, hscopes]
      exact hframes

end Scriptlet
