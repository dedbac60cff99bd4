import Scriptlet.Proofs.Run.Refinement
import Scriptlet.Proofs.Run.Soundness
import Scriptlet.Proofs.Typing.Agreement

/-!
# Preservation of Types

What a run binds has the types that the check found. The invariant relates a
run to the check at the same place. The check's tree there has the names that
were declared up to then, scope by scope, and the values in the frames fit
them: exactly the variables declared so far have values, and these are of their
types. A declaration, an assignment, and entering and leaving a branch all keep
the fit, so it holds wherever the run comes; and it says what the frames bind
in terms of the final tree, because that has all the names of the earlier one.

## Main definitions

* `Context.WellTyped`: Frames bind declared variables to values of their types.
* `Typed`: The invariant.

## Theorems

* `typed_of_reaches`: The invariant holds wherever a run comes.
* `wellTyped_of_occurs`: All contexts of a run are well typed.
* `run_preserves_types`: An accepted source runs in well-typed contexts, where
  expressions evaluate to values of the types that were found for them.
-/

namespace Scriptlet

open Outcome ScopeTree

/-- Every frame binds only names that its scope declares as variables, and each
    to a value of the declared type. -/
def Context.WellTyped (scopes : ScopeTree) (context : Context) : Prop :=
  ∀ frame ∈ context.frames, ∀ name value, frame.values.get? name = some value →
    ∃ declared, scopes.lookupLocal frame.scope name = some (.var declared) ∧
      declared.ty = value.ty

/-- A run and the check are at the same place, and the values of the run fit
    the names of the check. -/
structure Typed (program : Block) (scopes : ScopeTree) (place : Place) (context : Context)
    (tree : ScopeTree) : Prop where
  accompanied : Accompanied program scopes place context tree
  fits : Nest.Related Fits context.nest (tree.names context.currentScope)

section Typed

variable {program : Block} {scopes : ScopeTree} {site : Site} {index : Nat}
  {rest : List Statement} {context : Context} {tree : ScopeTree}

theorem typed_start (h : analyze program = .ok scopes) (sink : Sink) :
    Typed program scopes ⟨.root 0, 0, program.statements⟩ (Context.start scopes sink)
      .initial := by
  refine ⟨accompanied_start h sink, Plain.fits_empty, ?_⟩
  -- One scope and one frame, both of them empty.
  have hglobal : ScopeTree.initial.ancestors globalScope = [globalScope] := by
    rw [ScopeTree.ancestors]
    rfl
  change List.Forall₂ Fits [] ((ScopeTree.initial.ancestors globalScope).tail.map _)
  rw [hglobal]
  exact .nil

/-- A statement that the check passes is one that the rules pass. -/
theorem lexical_of_check {scope : ScopeId} {statement : Statement} {next : ScopeTree}
    (hscope : scope < tree.size)
    (h : checkStatement scope site index statement tree = .ok () next) :
    Lexical.checkStatement (tree.names scope) statement = .ok (next.names scope) := by
  rw [← Checker.verdict_checkStatement scope site index statement tree hscope, h]
  rfl

/-- What a statement leaves fits the names after it if it succeeds, and the
    names before it if it fails. -/
theorem sound_of_typed {statement : Statement} {next : ScopeTree}
    (h : Typed program scopes ⟨site, index, statement :: rest⟩ context tree)
    (hcheck : checkStatement context.currentScope site index statement tree = .ok () next) :
    Plain.Sound statement.guarded (tree.names context.currentScope)
      (next.names context.currentScope)
      (mapState Context.plain (runStatement site index statement context)) := by
  have hchecked := h.accompanied.checked
  rw [← h.accompanied.scopes] at hchecked
  rw [plain_runStatement site index rest statement h.accompanied.aligned hchecked]
  exact Plain.sound_runStatement statement h.fits
    (lexical_of_check h.accompanied.checked.known hcheck)

theorem typed_next {statement : Statement} {after : Context}
    (h : Typed program scopes ⟨site, index, statement :: rest⟩ context tree)
    (hrun : runStatement site index statement context = .ok () after) :
    ∃ next, Typed program scopes ⟨site, index + 1, rest⟩ after next := by
  rcases accompanied_next h.accompanied hrun with ⟨next, hcheck, hnext⟩
  have hsound := sound_of_typed h hcheck
  rw [hrun] at hsound
  refine ⟨next, hnext, ?_⟩
  rw [Context.currentScope_of_sameShape (keeps_ok (Run.keeps_runStatement _ _ _) hrun)]
  exact hsound

variable {condition : Expr} {whenTrue block : Block} {whenFalse : Option Block} {line : Nat}

theorem typed_whenTrue
    (h : Typed program scopes ⟨site, index, .branch condition whenTrue whenFalse line :: rest⟩
      context tree) :
    ∃ inner, Typed program scopes ⟨.inside site index .whenTrue, 0, whenTrue.statements⟩
      (context.entered (.inside site index .whenTrue)) inner := by
  rcases accompanied_whenTrue h.accompanied with ⟨hentered, hinner⟩
  rw [hentered]
  refine ⟨_, hinner, ?_⟩
  change Nest.Related Fits context.nest.enter
    ((tree.opened context.currentScope "if" (.inside site index .whenTrue)).names tree.size)
  rw [names_opened "if" _ h.accompanied.checked.known]
  exact Nest.related_enter h.fits Plain.fits_empty

theorem typed_whenFalse
    (h : Typed program scopes ⟨site, index, .branch condition whenTrue (some block) line :: rest⟩
      context tree) :
    ∃ inner, Typed program scopes ⟨.inside site index .whenFalse, 0, block.statements⟩
      (context.entered (.inside site index .whenFalse)) inner := by
  rcases accompanied_whenFalse h.accompanied with ⟨mid, hmid, hentered, hinner⟩
  rw [hentered]
  refine ⟨_, hinner, ?_⟩
  -- The first block was checked in between, and left the names in force as they were.
  have hknown := h.accompanied.checked.known
  have hopened : Grows tree.size (fun _ => True) tree
      (tree.opened context.currentScope "if" (.inside site index .whenTrue)) :=
    grows_opened tree.size tree context.currentScope "if" trivial
  have hchecked := keeps_ok (Checker.keeps_checkBlock tree.size _ whenTrue) hmid
  have hgrows : Grows tree.size (fun _ => True) tree mid :=
    grows_trans hopened (grows_mono hchecked fun _ _ => trivial)
  change Nest.Related Fits context.nest.enter
    ((mid.opened context.currentScope "else" (.inside site index .whenFalse)).names mid.size)
  rw [names_opened "else" _ (lt_size_of_grows hgrows hknown), names_of_grows hgrows hknown hknown]
  exact Nest.related_enter h.fits Plain.fits_empty

end Typed

/-- Wherever a run of an accepted program comes, its values fit the names that
    the check knew there. -/
theorem typed_of_reaches {program : Block} {scopes : ScopeTree} {sink : Sink} {place : Place}
    {context : Context} (h : analyze program = .ok scopes)
    (hreach : RunReaches program (Context.start scopes sink) place context) :
    ∃ tree, Typed program scopes place context tree := by
  induction hreach with
  | start => exact ⟨.initial, typed_start h sink⟩
  | next _ hrun ih =>
      rcases ih with ⟨tree, hhere⟩
      exact typed_next hhere hrun
  | whenTrue _ _ ih =>
      rcases ih with ⟨tree, hhere⟩
      exact typed_whenTrue hhere
  | whenFalse _ _ ih =>
      rcases ih with ⟨tree, hhere⟩
      exact typed_whenFalse hhere

/-- Values that fit the names of a tree are well typed in every tree that
    extends it. -/
theorem wellTyped_of_fits {scopes tree : ScopeTree} {context : Context}
    (hframes : context.frames.map Frame.scope = tree.ancestors context.currentScope)
    (hextends : tree.Extends scopes)
    (hfits : Nest.Related Fits context.nest (tree.names context.currentScope)) :
    context.WellTyped scopes := by
  have hlayers := Nest.related_layers hfits
  -- Layer by layer is frame by frame, as each frame is for the scope at its depth.
  rw [Context.layers_nest, layers_names, ← hframes, List.map_map, List.forall₂_map_left_iff,
    List.forall₂_map_right_iff, List.forall₂_same] at hlayers
  intro frame hmem name value hvalue
  have hname := hlayers frame hmem name
  rw [hvalue, Function.comp_apply, get?_layer] at hname
  -- A name that has a value is one that the scope declares as a variable.
  cases hsymbol : tree.lookupLocal frame.scope name with
  | none =>
      rw [hsymbol] at hname
      cases hname
  | some symbol =>
      rw [hsymbol] at hname
      cases symbol with
      | var declared =>
          exact ⟨declared, lookupLocal_of_extends hextends hsymbol,
            (Option.some.inj hname).symm⟩
      | func declared => cases hname

/-- The frames of a run are for the scopes that the check's tree already
    has. -/
theorem frames_of_accompanied {program : Block} {scopes : ScopeTree} {place : Place}
    {context : Context} {tree : ScopeTree}
    (h : Accompanied program scopes place context tree) :
    context.frames.map Frame.scope = tree.ancestors context.currentScope := by
  rw [h.aligned, h.scopes]
  exact ancestors_of_extends (extends_of_checked h.checked) h.checked.known

theorem wellTyped_of_occurs {program : Block} {scopes : ScopeTree} {sink : Sink}
    {context : Context} (h : analyze program = .ok scopes)
    (hoccurs : Occurs program (Context.start scopes sink) context) :
    context.WellTyped scopes := by
  cases hoccurs with
  | reached hreach =>
      rcases typed_of_reaches h hreach with ⟨tree, hhere⟩
      have hframes := frames_of_accompanied hhere.accompanied
      have hextends := extends_of_checked hhere.accompanied.checked
      exact wellTyped_of_fits hframes hextends hhere.fits
  | failed hreach hfail =>
      rcases typed_of_reaches h hreach with ⟨tree, hhere⟩
      rcases checked_statement hhere.accompanied.checked with ⟨next, hnext, _⟩
      have hsound := sound_of_typed hhere hnext
      rw [hfail] at hsound
      -- It is in the scope where it was, and its values fit the names before the statement.
      have hshape := keeps_error (Run.keeps_runStatement _ _ _) hfail
      have hscope := Context.currentScope_of_sameShape hshape
      have hextends := extends_of_checked hhere.accompanied.checked
      refine wellTyped_of_fits ?_ hextends ?_
      · rw [hshape.frames, hscope]
        exact frames_of_accompanied hhere.accompanied
      · rw [hscope]
        exact hsound.1

/-- Where the check found a type for an expression, the run evaluates it to a
    value of that type or fails in arithmetic. -/
theorem eval_of_typed {program : Block} {scopes : ScopeTree} {place : Place} {context : Context}
    {tree : ScopeTree} (h : Typed program scopes place context tree) {expr : Expr} {ty : Ty}
    (hty : tree.typeOf context.currentScope expr = .ok ty) :
    (∃ value, context.eval expr = .ok value ∧ value.ty = ty) ∨
      ∃ e, context.eval expr = .error e ∧ e.kind = .arithmetic := by
  rw [← typeOf_names] at hty
  have hyields := Plain.yields_eval h.fits hty
  rw [← eval_of_aligned h.accompanied.aligned] at hyields
  cases heval : context.eval expr with
  | ok value =>
      rw [heval] at hyields
      exact Or.inl ⟨value, rfl, hyields⟩
  | error e =>
      rw [heval] at hyields
      exact Or.inr ⟨e, rfl, hyields⟩

theorem load_eq_ok {source : String} {program : Block} {scopes : ScopeTree}
    (h : load source = .ok (program, scopes)) :
    parse source = .ok program ∧ analyze program = .ok scopes := by
  unfold load at h
  cases hp : parse source with
  | error e =>
      rw [hp] at h
      cases h
  | ok parsed =>
      rw [hp] at h
      simp only [] at h
      cases ha : analyze parsed with
      | error e =>
          rw [ha] at h
          cases h
      | ok tree =>
          rw [ha] at h
          cases h
          exact ⟨rfl, ha⟩

/-- A source that is accepted runs, into whatever sink, in contexts whose
    frames bind declared variables to values of their types. Wherever the run
    comes, the check has been in the same scope; and an expression for which it
    found a type there evaluates to a value of that type, or fails in
    arithmetic. -/
theorem run_preserves_types {source : String} (h : check source = .ok ()) :
    ∃ program scopes, load source = .ok (program, scopes) ∧ ∀ sink,
      (∀ context, Occurs program (Context.start scopes sink) context →
        context.WellTyped scopes) ∧
      ∀ place context, RunReaches program (Context.start scopes sink) place context →
        (∃ tree, CheckReaches program place context.currentScope tree) ∧
        ∀ scope tree, CheckReaches program place scope tree →
          scope = context.currentScope ∧
          ∀ expr ty, tree.typeOf scope expr = .ok ty →
            (∃ value, context.eval expr = .ok value ∧ value.ty = ty) ∨
              ∃ e, context.eval expr = .error e ∧ e.kind = .arithmetic := by
  cases hload : load source with
  | error e =>
      rw [check, hload] at h
      cases h
  | ok loaded =>
      rcases loaded with ⟨program, scopes⟩
      have hanalyze := (load_eq_ok hload).2
      refine ⟨program, scopes, rfl, fun sink =>
        ⟨fun context hoccurs => wellTyped_of_occurs hanalyze hoccurs, ?_⟩⟩
      intro place context hreach
      rcases typed_of_reaches hanalyze hreach with ⟨tree, hhere⟩
      refine ⟨⟨tree, hhere.accompanied.reached⟩, fun scope other hother => ?_⟩
      -- The check comes to a place once, so this is the tree of the invariant.
      rcases checkReaches_unique hother hhere.accompanied.reached rfl rfl with ⟨_, rfl, rfl⟩
      exact ⟨rfl, fun expr ty hty => eval_of_typed hhere hty⟩

/-- A source that shadows a variable, mixes the types of numbers, and changes a
    variable from inside a branch. -/
def mixedSource : String :=
  "x : int = 1; if (x < 2) \x7b x = x + 1; y : float = x / 2; print(y) \x7d " ++
    "else \x7b x : bool = True \x7d print(-x)"

/-- All contexts of the run of `mixedSource` are well typed, its start among
    them. -/
theorem run_preserves_types_mixedSource :
    check mixedSource = .ok () ∧
      ∃ program scopes, load mixedSource = .ok (program, scopes) ∧
        (∀ context, Occurs program (Context.start scopes .unbounded) context →
          context.WellTyped scopes) ∧
        ∃ context, Occurs program (Context.start scopes .unbounded) context ∧
          context.WellTyped scopes := by
  have haccepted : check mixedSource = .ok () := by decide +kernel
  rcases run_preserves_types haccepted with ⟨program, scopes, hload, hpreserved⟩
  have hwell := (hpreserved .unbounded).1
  have hoccurs := occurs_execute program scopes .unbounded
  exact ⟨haccepted, program, scopes, hload, hwell, _, hoccurs, hwell _ hoccurs⟩

end Scriptlet
