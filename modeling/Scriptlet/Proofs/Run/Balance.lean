import Mathlib.Data.Set.Insert
import Scriptlet.Proofs.Run.Course
import Scriptlet.Proofs.Run.Frames

/-!
# Balance of a Run

What a run does to the frames that it finds, whether it succeeds or fails. It
leaves the same frames, for the same scopes. The frames below the top one bind
the names that they did: a run reaches into them, but only to assign, and only
a name that is there already is assigned. The top frame binds the names that it
did and those that the run declared in it.

Which names these are depends on the scope tree. A branch with a recorded scope
has a frame of its own, and what it declares is gone with that frame. A branch
without one runs in the frame that is there, and what it declares stays, as far
as the run got. `FrameReaches` is the course of a run as far as it stays in the
frame in which it began, so the names that are gained are those of the
declarations on that course whose value could be computed.

Nothing of this depends on how the context came about. What does is the frame
at the bottom, which is for the global scope in every context that can be
reached from a fresh one, since that frame is never left.

## Main definitions

* `Frame.names`: The names that a frame binds.
* `Context.Retains`: The frames still bind their names, those below the top one
  no others.
* `FrameReaches`: A run comes to a place in the frame in which it began.
* `declaredHere`: The names that a run declares in that frame.
* `Reached`: The contexts that are reached from a fresh one.

## Theorems

* `Run.kept_retains`: Every step of a run leaves the frames with their names.
* `names_runBlock`: The top frame gains just the names that were declared in it.
* `run_balanced`: All of it, for the contexts that can be reached.
-/

namespace Scriptlet

open Outcome

/-! ### The names of frames -/

/-- The names that a frame binds. -/
def Frame.names (frame : Frame) : Set String := {name | frame.values.contains name = true}

theorem Frame.mem_names {frame : Frame} {name : String} :
    name ∈ frame.names ↔ frame.values.contains name = true := Iff.rfl

theorem Frame.names_set (frame : Frame) (name : String) (value : Value) :
    (frame.set name value).names = insert name frame.names := by
  ext other
  simp only [mem_names, set, Table.contains, Set.mem_insert_iff]
  by_cases h : other = name
  · simp only [h, Table.get?_insert_self, Option.isSome_some, true_or]
  · simp only [h, Table.get?_insert_other frame.values value h, false_or]

namespace Context

/-- The top frame still binds the names that it did, and the frames below bind
    these and no others. -/
structure Retains (before after : Context) : Prop where
  top : before.top.names ⊆ after.top.names
  below : after.below.map Frame.names = before.below.map Frame.names

theorem retains_refl (context : Context) : Retains context context := ⟨subset_rfl, rfl⟩

theorem retains_trans {a b c : Context} (hab : Retains a b) (hbc : Retains b c) :
    Retains a c :=
  ⟨hab.top.trans hbc.top, hbc.below.trans hab.below⟩

theorem top_names_of_frames {before after : Context}
    (h : after.frames.map Frame.names = before.frames.map Frame.names) :
    after.top.names = before.top.names := by
  rw [frames, frames, List.map_cons, List.map_cons, List.cons.injEq] at h
  exact h.1

theorem retains_of_frames {before after : Context}
    (h : after.frames.map Frame.names = before.frames.map Frame.names) :
    Retains before after := by
  refine ⟨(top_names_of_frames h).ge, ?_⟩
  rw [frames, frames, List.map_cons, List.map_cons, List.cons.injEq] at h
  exact h.2

/-- An assignment goes to a frame that binds the name, so no frame gains one. -/
theorem names_assign? {before after : Context} {name : String} {value : Value}
    (h : before.assign? name value = some after) :
    after.frames.map Frame.names = before.frames.map Frame.names := by
  rcases Option.map_eq_some_iff.mp h with ⟨index, hhome, rfl⟩
  rcases contains_of_home? hhome with ⟨frame, hframe, hbound⟩
  rw [frames_bindAt]
  refine map_modify fun found hfound => ?_
  cases Option.some.inj (hframe.symm.trans hfound)
  rw [Frame.names_set, Set.insert_eq_of_mem (Frame.mem_names.mpr hbound)]

/-- Where the frames below the one that was entered retained their names, all
    frames have the names again that they had before, once it is left. -/
theorem names_leave {before after : Context} {scope : ScopeId}
    (h : Retains (before.enter scope) after) :
    after.leave.frames.map Frame.names = before.frames.map Frame.names := by
  have hbelow : after.below.map Frame.names = before.frames.map Frame.names := h.below
  unfold leave
  -- At least the frame from which the scope was entered lies below.
  cases hframes : after.below with
  | nil => simp only [hframes, frames, List.map_nil, List.map_cons, reduceCtorEq] at hbelow
  | cons frame rest =>
      rw [hframes] at hbelow
      exact hbelow

end Context

/-! ### Running retains names -/

namespace Run

open Context

theorem names_assign (name : String) (value : Value) (line : Nat) (context : Context) :
    (state (Run.assign name value line context)).frames.map Frame.names =
      context.frames.map Frame.names := by
  unfold Run.assign
  split
  · rename_i changed h
    exact names_assign? h
  · rfl

theorem frames_print (value : Value) (context : Context) :
    (state (Run.print value context)).frames = context.frames := by
  unfold Run.print
  split
  · rfl
  · rfl

theorem inBlock_of_none {site : Site} {context : Context}
    (h : context.scopes.blockScope? site = none) (statements : Run Unit) :
    Run.inBlock site statements context = statements context := by
  simp only [Run.inBlock, h]

theorem state_inBlock_of_some {site : Site} {context : Context} {scope : ScopeId}
    (h : context.scopes.blockScope? site = some scope) (statements : Run Unit) :
    state (Run.inBlock site statements context) =
      (state (statements (context.enter scope))).leave := by
  simp only [Run.inBlock, h]
  cases statements (context.enter scope) with
  | ok u after => rfl
  | error e after => rfl

/-- A block with a frame of its own leaves all other frames with their names. -/
theorem names_inBlock {site : Site} {context : Context} {scope : ScopeId}
    (hscope : context.scopes.blockScope? site = some scope) {statements : Run Unit}
    (h : Keeps Retains statements) :
    (state (Run.inBlock site statements context)).frames.map Frame.names =
      context.frames.map Frame.names := by
  rw [state_inBlock_of_some hscope]
  exact names_leave (h (context.enter scope))

theorem kept_retains : Kept Retains where
  refl := retains_refl
  trans _ _ _ := retains_trans
  declare name value context := by
    refine ⟨?_, rfl⟩
    exact (Set.subset_insert name context.top.names).trans
      (Frame.names_set context.top name value).ge
  assign name value line context := retains_of_frames (names_assign name value line context)
  print value context := by
    refine retains_of_frames ?_
    rw [frames_print]
  inBlock site statements h context := by
    cases hscope : context.scopes.blockScope? site with
    | none =>
        rw [inBlock_of_none hscope]
        exact h context
    | some scope => exact retains_of_frames (names_inBlock hscope h)

end Run

/-! ### What is declared in the frame of a run -/

/-- Running a block from a context, the run comes to a place in another, and has
    not entered a frame on the way, or has left it again. -/
inductive FrameReaches (site : Site) (block : Block) (start : Context) :
    Place → Context → Prop where
  | start : FrameReaches site block start ⟨site, 0, block.statements⟩ start
  | next {inner : Site} {index : Nat} {statement : Statement} {rest : List Statement}
      {context after : Context}
      (here : FrameReaches site block start ⟨inner, index, statement :: rest⟩ context)
      (done : runStatement inner index statement context = .ok () after) :
      FrameReaches site block start ⟨inner, index + 1, rest⟩ after
  | whenTrue {inner : Site} {index : Nat} {condition : Expr} {whenTrue : Block}
      {whenFalse : Option Block} {line : Nat} {rest : List Statement} {context : Context}
      (here : FrameReaches site block start
        ⟨inner, index, .branch condition whenTrue whenFalse line :: rest⟩ context)
      (decided : context.eval condition = .ok (.bool true))
      (unscoped : context.scopes.blockScope? (.inside inner index .whenTrue) = none) :
      FrameReaches site block start ⟨.inside inner index .whenTrue, 0, whenTrue.statements⟩ context
  | whenFalse {inner : Site} {index : Nat} {condition : Expr} {whenTrue whenFalse : Block}
      {line : Nat} {rest : List Statement} {context : Context}
      (here : FrameReaches site block start
        ⟨inner, index, .branch condition whenTrue (some whenFalse) line :: rest⟩ context)
      (decided : context.eval condition = .ok (.bool false))
      (unscoped : context.scopes.blockScope? (.inside inner index .whenFalse) = none) :
      FrameReaches site block start
        ⟨.inside inner index .whenFalse, 0, whenFalse.statements⟩ context

/-- The names that the run of a block declares in the frame in which it began:
    those of the declarations that it comes to in this frame and that find
    their value. -/
def declaredHere (site : Site) (block : Block) (start : Context) : Set String :=
  {name | ∃ inner index ty expr line rest context value,
    FrameReaches site block start ⟨inner, index, .assign name (some ty) expr line :: rest⟩ context ∧
      context.eval expr = .ok value}

/-! ### One step of a run -/

namespace Run

open Context

theorem eval_bind_of_ok {expr : Expr} {context : Context} {value : Value}
    (h : context.eval expr = .ok value) (f : Value → Run Unit) :
    (Run.eval expr >>= f) context = f value context := by
  rw [bind_apply, Run.eval, h]

theorem runBlock_eq (site : Site) (block : Block) :
    runBlock site block = runStatements site 0 block.statements := by
  cases block with
  | mk statements line => rw [runBlock, Block.statements]

section Branch

variable {site : Site} {index : Nat} {condition : Expr} {whenTrue : Block} {line : Nat}
  {context : Context}

theorem runStatement_whenTrue (whenFalse : Option Block)
    (h : context.eval condition = .ok (.bool true)) :
    runStatement site index (.branch condition whenTrue whenFalse line) context =
      Run.inBlock (.inside site index .whenTrue)
        (runBlock (.inside site index .whenTrue) whenTrue) context := by
  cases whenFalse with
  | none => rw [runStatement, eval_bind_of_ok h]
  | some block => rw [runStatement, eval_bind_of_ok h]

theorem runStatement_whenFalse (whenFalse : Block)
    (h : context.eval condition = .ok (.bool false)) :
    runStatement site index (.branch condition whenTrue (some whenFalse) line) context =
      Run.inBlock (.inside site index .whenFalse)
        (runBlock (.inside site index .whenFalse) whenFalse) context := by
  rw [runStatement, eval_bind_of_ok h]

end Branch

/-- What a statement leaves in the top frame is still there behind those that
    follow it. -/
theorem names_runStatement_subset (site : Site) (index : Nat) (statement : Statement)
    (rest : List Statement) (context : Context) :
    (state (runStatement site index statement context)).top.names ⊆
      (state (runStatements site index (statement :: rest) context)).top.names := by
  rw [runStatements]
  cases hs : runStatement site index statement context with
  | ok u after =>
      rw [bind_of_ok hs]
      exact (kept_runStatements kept_retains site (index + 1) rest after).top
  | error e after =>
      rw [bind_of_error hs]

end Run

/-! ### What the top frame gains -/

section Gains

open Run

variable {site : Site} {block : Block} {start : Context}

/-- From a place on, a run leaves in the top frame only what the whole run
    leaves there. -/
theorem names_of_frameReaches {place : Place} {context : Context}
    (h : FrameReaches site block start place context) :
    (state (runStatements place.site place.index place.rest context)).top.names ⊆
      (state (runBlock site block start)).top.names := by
  induction h with
  | start => rw [runBlock_eq]
  | next here done ih =>
      rw [runStatements, bind_of_ok done] at ih
      exact ih
  -- The branch is all that the statement does, and what follows takes no name back.
  | whenTrue here decided unscoped ih =>
      refine Set.Subset.trans ?_ ih
      refine Set.Subset.trans ?_ (names_runStatement_subset _ _ _ _ _)
      rw [runStatement_whenTrue _ decided, inBlock_of_none unscoped, runBlock_eq]
  | whenFalse here decided unscoped ih =>
      refine Set.Subset.trans ?_ ih
      refine Set.Subset.trans ?_ (names_runStatement_subset _ _ _ _ _)
      rw [runStatement_whenFalse _ decided, inBlock_of_none unscoped, runBlock_eq]

/-- A name that a run declares in its frame is bound there at the end. -/
theorem declaredHere_subset :
    declaredHere site block start ⊆ (state (runBlock site block start)).top.names := by
  rintro name ⟨inner, index, ty, expr, line, rest, context, value, here, hvalue⟩
  refine names_of_frameReaches here (names_runStatement_subset _ _ _ _ _ ?_)
  rw [runStatement, eval_bind_of_ok hvalue]
  exact (Frame.names_set context.top name value).ge (Set.mem_insert name context.top.names)

/-- The top frame has gained no names but the given ones. -/
def Context.Gains (more : Set String) (before after : Context) : Prop :=
  after.top.names ⊆ before.top.names ∪ more

section Steps

variable {more : Set String} {context : Context}

theorem gains_refl (more : Set String) (context : Context) : context.Gains more context :=
  Set.subset_union_left

theorem gains_of_frames {after : Context}
    (h : after.frames.map Frame.names = context.frames.map Frame.names) :
    context.Gains more after :=
  (Context.top_names_of_frames h).le.trans Set.subset_union_left

/-- Without a value the context is as it was. -/
theorem gains_eval_bind {expr : Expr} {f : Value → Run Unit}
    (h : ∀ value, context.eval expr = .ok value → context.Gains more (state (f value context))) :
    context.Gains more (state ((Run.eval expr >>= f) context)) := by
  rw [bind_apply, Run.eval]
  cases heval : context.eval expr with
  | ok value => exact h value heval
  | error e => exact gains_refl more context

/-- A block adds what its statements add, if they run in the frame that is
    there, and nothing otherwise. -/
theorem gains_inBlock {inner : Site} {statements : Run Unit}
    (hkeeps : Keeps Context.Retains statements)
    (h : context.scopes.blockScope? inner = none →
      context.Gains more (state (statements context))) :
    context.Gains more (state (Run.inBlock inner statements context)) := by
  cases hscope : context.scopes.blockScope? inner with
  | none =>
      rw [inBlock_of_none hscope]
      exact h hscope
  | some scope => exact gains_of_frames (names_inBlock hscope hkeeps)

end Steps

-- By recursion over the program, along the places that are come to in the frame. A name is gained
-- at a declaration only, and the place of that declaration is one of these.
mutual

theorem gains_runStatement (inner : Site) (index : Nat) (rest : List Statement) :
    ∀ (statement : Statement) {context : Context},
      FrameReaches site block start ⟨inner, index, statement :: rest⟩ context →
      context.Gains (declaredHere site block start)
        (state (runStatement inner index statement context))
  | .assign name (some ty) expr line, context, here => by
      rw [runStatement]
      refine gains_eval_bind fun value hvalue => ?_
      have hdeclared : name ∈ declaredHere site block start :=
        ⟨inner, index, ty, expr, line, rest, context, value, here, hvalue⟩
      refine (Frame.names_set context.top name value).le.trans ?_
      exact Set.insert_subset (Set.mem_union_right _ hdeclared) Set.subset_union_left
  | .assign name none expr line, context, here => by
      rw [runStatement]
      refine gains_eval_bind fun value hvalue => ?_
      exact gains_of_frames (names_assign name value line context)
  | .branch condition whenTrue none line, context, here => by
      rw [runStatement]
      refine gains_eval_bind fun decided hdecided => ?_
      match decided with
      | .bool true =>
          refine gains_inBlock (kept_runBlock kept_retains _ whenTrue) fun unscoped => ?_
          exact gains_runBlock _ whenTrue (.whenTrue here hdecided unscoped)
      | .bool false => exact gains_refl _ context
      | .int _ | .real _ | .str _ => exact gains_refl _ context
  | .branch condition whenTrue (some whenFalse) line, context, here => by
      rw [runStatement]
      refine gains_eval_bind fun decided hdecided => ?_
      match decided with
      | .bool true =>
          refine gains_inBlock (kept_runBlock kept_retains _ whenTrue) fun unscoped => ?_
          exact gains_runBlock _ whenTrue (.whenTrue here hdecided unscoped)
      | .bool false =>
          refine gains_inBlock (kept_runBlock kept_retains _ whenFalse) fun unscoped => ?_
          exact gains_runBlock _ whenFalse (.whenFalse here hdecided unscoped)
      | .int _ | .real _ | .str _ => exact gains_refl _ context
  | .function name params body line, context, here => by
      rw [runStatement]
      exact gains_refl _ context
  | .print expr line, context, here => by
      rw [runStatement]
      refine gains_eval_bind fun value hvalue => ?_
      exact gains_of_frames (congrArg (List.map Frame.names) (frames_print value context))
  | .empty, context, here => by
      rw [runStatement]
      exact gains_refl _ context

theorem gains_runBlock (inner : Site) :
    ∀ (nested : Block) {context : Context},
      FrameReaches site block start ⟨inner, 0, nested.statements⟩ context →
      context.Gains (declaredHere site block start) (state (runBlock inner nested context))
  | .mk statements line, context, here => by
      rw [runBlock]
      exact gains_runStatements inner 0 statements here

theorem gains_runStatements (inner : Site) :
    ∀ (index : Nat) (statements : List Statement) {context : Context},
      FrameReaches site block start ⟨inner, index, statements⟩ context →
      context.Gains (declaredHere site block start)
        (state (runStatements inner index statements context))
  | index, [], context, here => by
      rw [runStatements]
      exact gains_refl _ context
  | index, statement :: rest, context, here => by
      have hfirst := gains_runStatement inner index rest statement here
      rw [runStatements]
      cases hs : runStatement inner index statement context with
      | ok u after =>
          rw [hs] at hfirst
          rw [bind_of_ok hs]
          -- What the rest finds in the frame is what the statement left there.
          refine (gains_runStatements inner (index + 1) rest (here.next hs)).trans ?_
          exact Set.union_subset hfirst Set.subset_union_right
      | error e after =>
          rw [hs] at hfirst
          rw [bind_of_error hs]
          exact hfirst

end

/-- Behind a run, the top frame binds the names that it did and those that the
    run declared in it. -/
theorem names_runBlock (site : Site) (block : Block) (start : Context) :
    (state (runBlock site block start)).top.names =
      start.top.names ∪ declaredHere site block start := by
  refine Set.Subset.antisymm (gains_runBlock site block .start) ?_
  exact Set.union_subset (kept_runBlock kept_retains site block start).top declaredHere_subset

end Gains

/-! ### The contexts that are reached -/

/-- The contexts that are reached from a fresh one by entering and leaving
    scopes, declaring and assigning variables, and running blocks. What an
    assignment or a run leaves is reached also if it fails. -/
inductive Reached (scopes : ScopeTree) (sink : Sink) : Context → Prop where
  | start : Reached scopes sink (Context.start scopes sink)
  | enter {context : Context} (here : Reached scopes sink context) (scope : ScopeId) :
      Reached scopes sink (context.enter scope)
  | leave {context : Context} (here : Reached scopes sink context) :
      Reached scopes sink context.leave
  | declare {context : Context} (here : Reached scopes sink context) (name : String)
      (value : Value) : Reached scopes sink (context.declare name value)
  | assign {context : Context} (here : Reached scopes sink context) (name : String)
      (value : Value) (line : Nat) :
      Reached scopes sink (state (Run.assign name value line context))
  | run {context : Context} (here : Reached scopes sink context) (site : Site) (block : Block) :
      Reached scopes sink (state (runBlock site block context))

/-- The frame at the bottom is for the global scope. -/
theorem bottom_of_reached {scopes : ScopeTree} {sink : Sink} {context : Context}
    (h : Reached scopes sink context) :
    (context.frames.map Frame.scope).getLast? = some globalScope := by
  induction h with
  | start => rfl
  | enter here scope ih =>
      rw [Context.frames, List.map_cons, Context.enter, List.getLast?_cons, ih, Option.getD_some]
  | @leave context here ih =>
      unfold Context.leave
      cases hbelow : context.below with
      | nil =>
          rw [Context.frames, hbelow] at ih
          exact ih
      -- The frame that is left lies above another, so it is not the one at the bottom.
      | cons frame rest =>
          rw [Context.frames, hbelow, List.map_cons, List.map_cons, List.getLast?_cons_cons] at ih
          exact ih
  | declare here name value ih => exact ih
  | @assign context here name value line ih =>
      rw [(Run.keeps_assign name value line context).frames]
      exact ih
  | @run context here site block ih =>
      rw [(Run.keeps_runBlock site block context).frames]
      exact ih

/-- In every context that is reached there are frames, the one at the bottom is
    for the global scope, and the current scope is that of the one on top.
    Behind the run of any block, be it a success or a failure, the frames are
    for the same scopes as before and so is the current scope; the frames below
    the top one bind the same names; and the top one binds the names that it did
    and those that the run declared in it. -/
theorem run_balanced {scopes : ScopeTree} {sink : Sink} {context : Context}
    (h : Reached scopes sink context) :
    context.frames ≠ [] ∧
      context.frames.getLast?.map Frame.scope = some globalScope ∧
      context.frames.head?.map Frame.scope = some context.currentScope ∧
      ∀ (site : Site) (block : Block) (after : Context),
        state (runBlock site block context) = after →
          after.frames.map Frame.scope = context.frames.map Frame.scope ∧
          after.currentScope = context.currentScope ∧
          after.below.map Frame.names = context.below.map Frame.names ∧
          after.top.names = context.top.names ∪ declaredHere site block context := by
  have hbottom := bottom_of_reached h
  rw [List.getLast?_map] at hbottom
  refine ⟨List.cons_ne_nil _ _, hbottom, congrArg some context.current_top.symm, ?_⟩
  rintro site block _ rfl
  have hshape := Run.keeps_runBlock site block context
  have hretains := Run.kept_runBlock Run.kept_retains site block context
  exact ⟨hshape.frames, Context.currentScope_of_sameShape hshape, hretains.below,
    names_runBlock site block context⟩

/-- A source whose run declares a variable in one branch, and then fails in
    another inside it. -/
def breakingSource : String :=
  "x : int = 1; if (x < 2) \x7b y : int = x; " ++
    "if (y < 2) \x7b x = 5; z : int = x + 9223372036854775807 \x7d \x7d"

/-- Whether the top frame binds a name behind the run of a program with a tree,
    if that run fails. -/
def bindsBehindFailure? (program : Block) (name : String) (tree : ScopeTree) : Option Bool :=
  match runBlock (.root 0) program (.start tree .unbounded) with
  | .ok _ _ => none
  | .error _ after => some (after.top.values.contains name)

theorem eq_error_of_bindsBehindFailure? {program : Block} {name : String} {tree : ScopeTree}
    {bound : Bool} (h : bindsBehindFailure? program name tree = some bound) :
    ∃ e after, runBlock (.root 0) program (.start tree .unbounded) = .error e after ∧
      (name ∈ after.top.names ↔ bound = true) := by
  unfold bindsBehindFailure? at h
  cases hrun : runBlock (.root 0) program (.start tree .unbounded) with
  | ok u after => simp only [hrun, reduceCtorEq] at h
  | error e after =>
      simp only [hrun, Option.some.injEq] at h
      refine ⟨e, after, rfl, ?_⟩
      rw [Frame.mem_names, h]

/-- The failing run of `breakingSource` leaves the global frame. What the branch
    declared is in it only if no scope was recorded for the branch. -/
theorem run_balanced_breakingSource :
    ∃ program scopes, load breakingSource = .ok (program, scopes) ∧
      (∃ e after, runBlock (.root 0) program (.start scopes .unbounded) = .error e after ∧
        after.frames.map Frame.scope = [globalScope] ∧ "y" ∉ after.top.names) ∧
      ∃ e after, runBlock (.root 0) program (.start .initial .unbounded) = .error e after ∧
        after.frames.map Frame.scope = [globalScope] ∧ "y" ∈ after.top.names := by
  -- One evaluation for both trees, because each reads the source.
  have hruns : (load breakingSource).toOption.map (fun loaded =>
      (bindsBehindFailure? loaded.1 "y" loaded.2, bindsBehindFailure? loaded.1 "y" .initial)) =
        some (some false, some true) := by decide +kernel
  cases hload : load breakingSource with
  | error e => simp only [hload, Except.toOption, Option.map_none, reduceCtorEq] at hruns
  | ok loaded =>
      rcases loaded with ⟨program, scopes⟩
      simp only [hload, Except.toOption, Option.map_some, Option.some.injEq, Prod.mk.injEq]
        at hruns
      rcases eq_error_of_bindsBehindFailure? hruns.1 with ⟨e, after, hafter, hy⟩
      rcases eq_error_of_bindsBehindFailure? hruns.2 with ⟨e', after', hafter', hy'⟩
      have hstart : ∀ tree, Reached tree .unbounded (.start tree .unbounded) := fun _ => .start
      have hframes := fun tree => (run_balanced (hstart tree)).2.2.2 (.root 0) program
      refine ⟨program, scopes, rfl, ⟨e, after, hafter, ?_, ?_⟩, e', after', hafter', ?_, ?_⟩
      · exact (hframes scopes after (congrArg state hafter)).1
      · rw [hy]
        exact Bool.false_ne_true
      · exact (hframes .initial after' (congrArg state hafter')).1
      · exact hy'.mpr rfl

end Scriptlet
