import Scriptlet.Proofs.Run.Safety
import Scriptlet.Proofs.Typing.Mirror
import Scriptlet.Proofs.Typing.Weakening

/-!
# Calling Functions From Outside

The language has no calls, but whoever holds a context can make one: enter the
scope of a function, bind its parameters, run the body and leave. After a
program has run to its end, such calls can be made in any order and as often as
one likes. They are as safe as the program itself, and whether they succeed or
fail they leave the context as they found it, but for what they printed and for
new values of global variables.

The body was checked among the names that were declared when the function was.
It runs among all global names, and these cover the earlier ones, so the check
would pass there as well. What is in the global frame fits the global names
before a call, and it still does behind it, because the body can change values
outside its own layer but not what is declared there.

## Main definitions

* `Call`: A function with values for its parameters.
* `Call.Proper`: The function is a global one, and the values fit.
* `Call.outcome`, `Call.behind`: How the body ends, and the context behind the
  call.
* `Context.AtRest`: A context between calls.

## Theorems

* `atRest_execute`: A program that has run leaves a context at rest.
* `safe_call`: A call in a context at rest is safe and leaves one at rest.
* `calls_run_safely`: So does any sequence of calls.
-/

namespace Scriptlet

open Outcome ScopeTree

/-- Binds parameters in the top frame, in order. -/
def Context.bindParams (context : Context) : List VariableSymbol → List Value → Context
  | param :: params, value :: values => (context.declare param.name value).bindParams params values
  | _, _ => context

/-- A function with values for its parameters. -/
structure Call where
  function : FunctionSymbol
  arguments : List Value

namespace Call

/-- The function is declared globally, and each of its parameters gets a value
    of its type. -/
structure Proper (scopes : ScopeTree) (call : Call) : Prop where
  declared :
    scopes.lookupLocal globalScope call.function.name = some (.func call.function)
  typed : call.arguments.map Value.ty = call.function.params.map VariableSymbol.ty

/-- The context in which the body starts: a frame for the function's scope in
    which the parameters are bound. -/
def entered (call : Call) (context : Context) : Context :=
  (context.enter call.function.scope).bindParams call.function.params call.arguments

/-- How the body ends. -/
def outcome (call : Call) (context : Context) : EStateM.Result RuntimeError Context Unit :=
  runBlock call.function.site call.function.body (call.entered context)

/-- The context behind a call, whose frame is left in any case. -/
def behind (call : Call) (context : Context) : Context := (state (call.outcome context)).leave

/-- The context behind some calls, one after the other. -/
def behindAll (calls : List Call) (context : Context) : Context :=
  calls.foldl (fun context call => call.behind context) context

end Call

/-- A context between calls: it is in the global scope, and its values are of
    the right types for exactly the global variables. -/
structure Context.AtRest (tree : ScopeTree) (context : Context) : Prop where
  scopes : context.scopes = tree
  current : context.currentScope = globalScope
  aligned : context.Aligned
  fits : Nest.Related Fits context.nest (tree.names globalScope)

/-! ### Parameters -/

theorem sameShape_bindParams (context : Context) (params : List VariableSymbol)
    (values : List Value) : context.SameShape (context.bindParams params values) := by
  induction params generalizing context values with
  | nil => exact context.sameShape_refl
  | cons param rest ih =>
      cases values with
      | nil => exact context.sameShape_refl
      | cons value others =>
          have hdeclare : context.SameShape (context.declare param.name value) := ⟨rfl, rfl⟩
          exact Context.sameShape_trans hdeclare (ih _ others)

/-- Parameters that the rules declare and that get values of their types. -/
theorem fits_bindParams {params : List Param} {values : List Value} {names inner : Nest Binding}
    {context : Context} (h : Nest.Related Fits context.nest names)
    (hparams : Lexical.declareParams names params = .ok inner)
    (htyped : values.map Value.ty = params.map Param.ty) :
    Nest.Related Fits (context.bindParams (params.map Param.symbol) values).nest inner ∧
      inner.below = names.below := by
  induction params generalizing context names values with
  | nil =>
      cases hparams
      exact ⟨h, rfl⟩
  | cons param rest ih =>
      cases values with
      | nil => cases htyped
      | cons value others =>
          rw [Lexical.declareParams] at hparams
          rcases except_bind_eq_ok.mp hparams with ⟨mid, hmid, hrest⟩
          rcases Lexical.declare_eq_ok hmid with ⟨_, rfl⟩
          rw [List.map_cons, List.map_cons, List.cons.injEq] at htyped
          have hdeclared : Nest.Related Fits (context.declare param.name value).nest
              (names.declare param.name (.var param.ty)) :=
            Nest.related_declare h (Plain.fits_declare h.1 htyped.1)
          have hlast := ih hdeclared hrest htyped.2
          exact ⟨hlast.1, hlast.2⟩

/-! ### Blocks -/

theorem guarded_of_mem {statements : List Statement} {statement : Statement}
    (h : guardedOfList statements = true) (hmem : statement ∈ statements) :
    statement.guarded = true := by
  induction statements with
  | nil => cases hmem
  | cons first rest ih =>
      rw [guardedOfList, Bool.and_eq_true] at h
      rcases List.mem_cons.mp hmem with rfl | hrest
      · exact h.1
      · exact ih h.2 hrest

/-- However a block ends, the layers around it still fit. -/
theorem Plain.below_of_soundBlock {guarded : Bool} {before after : Nest Binding}
    {outcome : EStateM.Result RuntimeError Plain.State Unit}
    (h : Plain.SoundBlock guarded before after outcome) :
    List.Forall₂ Fits (state outcome).values.below before.below := by
  cases outcome with
  | ok u last =>
      rw [← h.2]
      exact h.1.2
  | error e last => exact h.1

/-! ### Where a function was checked -/

section Program

variable {program : Block} {scopes : ScopeTree} {context : Context}

theorem ancestors_global (h : analyze program = .ok scopes) :
    scopes.ancestors globalScope = [globalScope] :=
  (accompanied_start h .unbounded).aligned.symm

/-- Further in, the global names of a tree are covered by those of a tree that
    extends it. -/
theorem covers_global {before after : ScopeTree} (h : before.Extends after)
    (hsize : globalScope < before.size) (hglobal : after.ancestors globalScope = [globalScope]) :
    Lexical.Covers (before.names globalScope).enter (after.names globalScope).enter where
  top _ := rfl
  known name binding hname := by
    rw [Nest.get?_enter] at hname ⊢
    have hbefore := (ancestors_of_extends h hsize).symm.trans hglobal
    exact get?_names_global_of_extends h hsize hbefore hname

/-- A global function stands somewhere in the program, and was checked there
    with the scope that its symbol has. -/
theorem checked_of_global (h : analyze program = .ok scopes) {f : FunctionSymbol}
    (hf : scopes.lookupLocal globalScope f.name = some (.func f)) :
    ∃ k params line later tree,
      program.statements[k]? = some (.function f.name params f.body line) ∧
      Checked scopes ⟨.root 0, k, .function f.name params f.body line :: later⟩ globalScope tree ∧
      f.params = params.map Param.symbol ∧ f.site = .inside (.root 0) k .body ∧
      f.scope = tree.size := by
  rcases origin_of_function h hf with ⟨_, opening, k, params, line, hroot, hk, hparams, hsite, _⟩
  cases hroot
  rcases checked_nth (checked_start h) hk with ⟨later, tree, hchecked⟩
  rw [Nat.zero_add] at hchecked
  refine ⟨k, params, line, later, tree, hk, hchecked, hparams.symm, hsite, ?_⟩
  -- The name was declared once, so its symbol is the one that was made here.
  rcases checked_body hchecked with ⟨named, inner, hnamed, hextends, _, _⟩
  have hpushed := lt_size_of_grows
    (grows_push globalScope (fun _ => True) tree globalScope f.name) hchecked.known
  have hdeclared : Mirrors (fun _ => none) globalScope [] _ _ named :=
    mirrors_declare hpushed hnamed
  have hlocal := lookupLocal_of_extends hextends
    ((hdeclared.symbols _ _).mpr (Or.inr ⟨rfl, rfl⟩))
  change scopes.lookupLocal globalScope f.name = _ at hlocal
  rw [hf, Option.some.injEq, Symbol.func.injEq] at hlocal
  rw [hlocal]

/-- The parameters and the body of a global function pass the rules among all
    global names. -/
theorem passes_of_global (h : analyze program = .ok scopes) {index line : Nat} {name : String}
    {params : List Param} {body : Block} {later : List Statement} {site : Site} {tree : ScopeTree}
    (hchecked : Checked scopes ⟨site, index, .function name params body line :: later⟩ globalScope
      tree) :
    ∃ inner last, Lexical.declareParams (scopes.names globalScope).enter params = .ok inner ∧
      Lexical.checkBlock inner body = .ok last := by
  rcases checked_statement hchecked with ⟨after, hafter, hlater, _⟩
  have hlexical := lexical_of_check hchecked.known hafter
  rw [Lexical.checkStatement] at hlexical
  rcases except_bind_eq_ok.mp hlexical with ⟨outer, _, hrest⟩
  rcases except_bind_eq_ok.mp hrest with ⟨inner, hinner, hbody⟩
  rcases except_bind_eq_ok.mp hbody with ⟨last, hlast, houter⟩
  cases houter
  -- What was known behind the function is covered by what is known at the end.
  have hcovers := covers_global (extends_of_checked hlater) hlater.known (ancestors_global h)
  rcases Lexical.declareParams_of_covers hcovers hinner with ⟨inner', hinner', hinside⟩
  rcases Lexical.checkBlock_of_covers body hinside hlast with ⟨last', hlast', _⟩
  exact ⟨inner', last', hinner', hlast'⟩

/-! ### Calls -/

/-- A program that has run to its end leaves its context at rest. -/
theorem atRest_execute {sink : Sink} (h : analyze program = .ok scopes)
    (hrun : execute program scopes sink = .ok () context) : context.AtRest scopes := by
  have hshape := keeps_ok (Run.keeps_runBlock (.root 0) program) hrun
  have hstart := (accompanied_start h sink).aligned
  refine ⟨hshape.scopes, Context.currentScope_of_sameShape hshape,
    Context.aligned_of_sameShape hshape hstart, ?_⟩
  -- It ends as the plain run does, and there the values fit the names.
  have hfits : Nest.Related Fits (Plain.State.start sink).values
      (ScopeTree.initial.names globalScope) := (typed_start h sink).fits
  have hsound := Plain.sound_runBlock program hfits (lexical_of_analyze h)
  rw [← Plain.execute, ← plain_execute h sink, hrun] at hsound
  exact hsound.1

theorem guarded_of_function {k line : Nat} {name : String} {params : List Param} {body : Block}
    (h : program.guarded = true)
    (hk : program.statements[k]? = some (.function name params body line)) :
    body.guarded = true := by
  cases program with
  | mk statements first =>
      rw [Block.guarded] at h
      have hstatement := guarded_of_mem h (List.mem_of_getElem? hk)
      rw [Statement.guarded] at hstatement
      exact hstatement

theorem sameShape_entered (call : Call) (context : Context) :
    (context.enter call.function.scope).SameShape (call.entered context) :=
  sameShape_bindParams _ _ _

/-- In a context at rest, the body of a proper call runs as the rules say,
    inside the layer of the global names. -/
theorem sound_call (h : analyze program = .ok scopes) (hrest : context.AtRest scopes) {call : Call}
    (hcall : call.Proper scopes) :
    ∃ before after, before.below = (scopes.names globalScope).layers ∧
      Plain.SoundBlock call.function.body.guarded before after
        (mapState Context.plain (call.outcome context)) := by
  rcases checked_of_global h hcall.declared with
    ⟨k, params, line, later, tree, _, hchecked, hparams, hsite, hscope⟩
  rcases passes_of_global h hchecked with ⟨inner, last, hinner, hlast⟩
  rcases checked_body hchecked with ⟨_, bound, _, _, hancestors, hbody⟩
  rw [← hscope, ← hsite] at hbody
  rw [← hscope] at hancestors
  -- The frame that is entered is aligned, and its values fit the parameters.
  have hshape := sameShape_entered call context
  have haligned : (call.entered context).Aligned := by
    refine Context.aligned_of_sameShape hshape (aligned_enter hrest.aligned ?_)
    rw [hrest.scopes, hrest.current]
    exact hancestors
  have hentered : Nest.Related Fits (context.enter call.function.scope).nest
      (scopes.names globalScope).enter := Nest.related_enter hrest.fits Plain.fits_empty
  have htyped : call.arguments.map Value.ty = params.map Param.ty := by
    rw [hcall.typed, hparams, List.map_map]
    rfl
  rcases fits_bindParams hentered hinner htyped with ⟨hfits, hbelow⟩
  rw [← hparams] at hfits
  refine ⟨inner, last, hbelow, ?_⟩
  -- The check has been where the body stands, so it runs as it does plainly.
  have hscopes : (call.entered context).scopes = scopes := hshape.scopes.trans hrest.scopes
  have hcurrent : (call.entered context).currentScope = call.function.scope :=
    Context.currentScope_of_sameShape hshape
  rw [← hscopes, ← hcurrent] at hbody
  rw [Call.outcome, plain_runBlock call.function.site call.function.body haligned hbody]
  exact Plain.sound_runBlock call.function.body hfits hlast

/-- A proper call in a context at rest can only fail benignly, and leaves the
    context at rest. -/
theorem safe_call (h : analyze program = .ok scopes) (hguarded : program.guarded = true)
    (hrest : context.AtRest scopes) {call : Call} (hcall : call.Proper scopes) :
    (∀ e after, call.outcome context = .error e after → e.Benign) ∧
      (call.behind context).AtRest scopes := by
  rcases sound_call h hrest hcall with ⟨before, after, hbelow, hsound⟩
  refine ⟨fun e failed hfailed => ?_, ?_⟩
  · rcases checked_of_global h hcall.declared with ⟨_, _, _, _, _, hk, _⟩
    rw [hfailed] at hsound
    exact hsound.2 (guarded_of_function hguarded hk)
  · have hran := Run.keeps_runBlock call.function.site call.function.body (call.entered context)
    have hleft : context.SameShape (call.behind context) :=
      Context.sameShape_leave (Context.sameShape_trans (sameShape_entered call context) hran)
    have hlayers := Plain.below_of_soundBlock hsound
    rw [state_mapState, hbelow] at hlayers
    refine ⟨hleft.scopes.trans hrest.scopes,
      (Context.currentScope_of_sameShape hleft).trans hrest.current,
      Context.aligned_of_sameShape hleft hrest.aligned, ?_⟩
    rw [Call.behind, Context.nest_leave]
    exact Nest.related_leave hlayers

/-- Any number of proper calls leaves a context at rest that was so before. -/
theorem atRest_behindAll (h : analyze program = .ok scopes) (hguarded : program.guarded = true)
    {calls : List Call} (hrest : context.AtRest scopes)
    (hcalls : ∀ call ∈ calls, call.Proper scopes) :
    (Call.behindAll calls context).AtRest scopes := by
  induction calls generalizing context with
  | nil => exact hrest
  | cons call later ih =>
      have hcall := hcalls call (List.mem_cons_self ..)
      have hnext := (safe_call h hguarded hrest hcall).2
      exact ih hnext fun other hother => hcalls other (List.mem_cons_of_mem _ hother)

/-- Two contexts at rest bind the same names. -/
theorem contains_of_atRest {other : Context} (h : context.AtRest scopes)
    (hother : other.AtRest scopes) (name : String) :
    context.top.values.contains name = other.top.values.contains name := by
  have hty := (h.fits.1 name).trans (hother.fits.1 name).symm
  have hsome := congrArg Option.isSome hty
  rw [Option.isSome_map, Option.isSome_map] at hsome
  exact hsome

theorem wellTyped_of_atRest (h : context.AtRest scopes) : context.WellTyped scopes := by
  have hframes : context.frames.map Frame.scope = scopes.ancestors context.currentScope := by
    rw [h.aligned, h.scopes]
  have hfits : Nest.Related Fits context.nest (scopes.names context.currentScope) := by
    rw [h.current]
    exact h.fits
  exact wellTyped_of_fits hframes (extends_refl scopes) hfits

/-- After a source has run to its end, any sequence of calls of its global
    functions leaves the single global frame, with the names that were bound
    and values of their declared types, whether the calls succeeded or failed;
    and each further call ends well, or fails in arithmetic or at a refusal of
    the sink. -/
theorem calls_run_safely {source : String} {sink : Sink} {start : Context}
    (hload : load source = .ok (program, scopes))
    (hrun : execute program scopes sink = .ok () start) {calls : List Call}
    (hcalls : ∀ call ∈ calls, call.Proper scopes) :
    (Call.behindAll calls start).scopes = scopes ∧
      (Call.behindAll calls start).frames.map Frame.scope = [globalScope] ∧
      (∀ name, (Call.behindAll calls start).top.values.contains name =
        start.top.values.contains name) ∧
      (Call.behindAll calls start).WellTyped scopes ∧
      ∀ call : Call, call.Proper scopes →
        (∃ after, call.outcome (Call.behindAll calls start) = .ok () after) ∨
        ∃ e after, call.outcome (Call.behindAll calls start) = .error e after ∧
          ((∃ line, e = .divisionByZero line) ∨ (∃ line, e = .overflow line) ∨
            (∃ line, e = .precisionLoss line) ∨ ∃ reason, e = .output reason) := by
  rcases load_eq_ok hload with ⟨hparse, hanalyze⟩
  have hguarded := guarded_of_parse hparse
  have hstart := atRest_execute hanalyze hrun
  have hrest := atRest_behindAll hanalyze hguarded hstart hcalls
  refine ⟨hrest.scopes, ?_, contains_of_atRest hrest hstart, wellTyped_of_atRest hrest, ?_⟩
  · rw [hrest.aligned, hrest.scopes, hrest.current, ancestors_global hanalyze]
  · intro call hcall
    cases houtcome : call.outcome (Call.behindAll calls start) with
    | ok u after => exact Or.inl ⟨after, rfl⟩
    | error e after =>
        have hbenign := (safe_call hanalyze hguarded hrest hcall).1 e after houtcome
        exact Or.inr ⟨e, after, rfl, benign_iff.mp hbenign⟩

/-- A function that changes a global variable, may overflow, and then declares
    a variable of that name for itself. -/
def counterSource : String :=
  "x : int = 1; func add(y : int) \x7b x = x + y; x : str = \"done\"; print(x) \x7d z : int = x"

/-- The program of `counterSource`, its scope tree, the context that its run
    leaves, and its function. -/
def counterReady? : Option ((Block × ScopeTree) × Context × FunctionSymbol) :=
  match load counterSource with
  | .ok (program, scopes) =>
    match execute program scopes .unbounded, scopes.lookupLocal globalScope "add" with
    | .ok _ start, some (.func add) => some ((program, scopes), start, add)
    | _, _ => none
  | .error _ => none

theorem calls_run_safely_counterSource :
    ∃ program scopes start add, load counterSource = .ok (program, scopes) ∧
      execute program scopes .unbounded = .ok () start ∧
      Call.Proper scopes ⟨add, [.int 5]⟩ ∧
      Call.Proper scopes ⟨add, [.int 9223372036854775807]⟩ ∧
      ∀ behind, behind =
          Call.behindAll [⟨add, [.int 5]⟩, ⟨add, [.int 9223372036854775807]⟩] start →
        behind.frames.map Frame.scope = [globalScope] ∧ behind.WellTyped scopes := by
  have hready : (counterReady?.any fun ready =>
      ready.2.2.name = "add" ∧ ready.2.2.params.map VariableSymbol.ty = [.int]) = true := by
    decide +kernel
  cases hload : load counterSource with
  | error e =>
      rw [counterReady?, hload] at hready
      cases hready
  | ok loaded =>
      rcases loaded with ⟨program, scopes⟩
      rw [counterReady?, hload] at hready
      simp only [] at hready
      split at hready
      · rename_i u start add hrun hadd
        rw [Option.any_some, decide_eq_true_eq] at hready
        have hproper : ∀ value : Value, value.ty = .int → Call.Proper scopes ⟨add, [value]⟩ := by
          intro value hty
          refine ⟨?_, ?_⟩
          · rw [hready.1]
            exact hadd
          · rw [hready.2, List.map_cons, hty]
            rfl
        refine ⟨program, scopes, start, add, rfl, hrun, hproper _ rfl, hproper _ rfl, ?_⟩
        rintro _ rfl
        have hcalls : ∀ call ∈ [Call.mk add [.int 5], ⟨add, [.int 9223372036854775807]⟩],
            call.Proper scopes := by
          intro call hcall
          rcases List.mem_cons.mp hcall with rfl | hcall
          · exact hproper _ rfl
          · rw [List.mem_singleton.mp hcall]
            exact hproper _ rfl
        rcases calls_run_safely hload hrun hcalls with ⟨_, hframes, _, htyped, _⟩
        exact ⟨hframes, htyped⟩
      · cases hready

end Program

end Scriptlet
