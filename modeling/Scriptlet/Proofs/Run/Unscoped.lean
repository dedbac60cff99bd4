import Scriptlet.Proofs.Run.Safety
import Scriptlet.Proofs.Typing.Exact

/-!
# Running Without Scopes

A block for which no scope is recorded runs in the frame that is there. Where a
tree records none, a whole program runs in the global frame, and what a branch
declares stays behind it. That such a program still runs as it does with its
scopes is a matter of shadowing. A name that stays is one that an accepted
program cannot mention before declaring it again, so it does no harm; but a
branch that declares a variable anew overwrites the one that was there.

It does so whether or not that variable could be mentioned at the time. A
function can hide a variable, and a branch further in that declares the name
once more finds no variable under it, but overwrites one all the same
(`hidden_variable_is_overwritten`). So what branches have to leave alone are
the variables of all scopes around them, the hidden ones included.

Then the layers of a plain run have no variable in common, and the frame holds
everything that they hold (`Spread`). This is the invariant. A declaration and
an assignment change the same name on both sides, entering a branch adds a
layer that is empty, and leaving it only forgets.

## Main definitions

* `Introduction`: A variable that a branch declares, with the names in force.
* `branchIntroductions`: Those of a program.
* `Introduction.Shadows`, `Introduction.Repeats`: It stands where its name is a
  variable already, and where a scope around it has a variable of its name.
* `Spread`: A table holds the values of several layers.
* `Unscoped`: A plain state, and a context without scopes that goes with it.

## Theorems

* `spread_insert`: What keeps a table in step with layers.
* `agrees_runStatements`: Statements run alike with and without layers.
* `hidden_variable_is_overwritten`: It is not enough that nothing shadows.
* `unscoped_run_agrees`: It is enough that nothing repeats.
-/

namespace Scriptlet

open Outcome

/-! ### What branches declare -/

theorem isSome_ty?_iff {found : Option Binding} :
    (found.bind Binding.ty?).isSome = true ↔ ∃ ty, found = some (.var ty) := by
  rcases found with _ | (ty | _)
  · exact ⟨nofun, nofun⟩
  · exact ⟨fun _ => ⟨ty, rfl⟩, fun _ => rfl⟩
  · exact ⟨nofun, nofun⟩

/-- A declaration of a variable: its name, and the names in force before it. -/
structure Introduction where
  names : Nest Binding
  name : String

namespace Introduction

/-- The name already stands for a variable. -/
def Shadows (i : Introduction) : Prop := ∃ ty, Lawful.Resolves i.names i.name (.var ty)

/-- A scope around the declaration already has a variable of that name, be it
    hidden or not. -/
def Repeats (i : Introduction) : Prop :=
  ∃ layer ∈ i.names.layers, ∃ ty, layer.get? i.name = some (.var ty)

instance : DecidablePred Shadows := fun i =>
  decidable_of_iff (((i.names.get? i.name).bind Binding.ty?).isSome = true) isSome_ty?_iff

instance : DecidablePred Repeats := fun i =>
  decidable_of_iff
    (∃ layer ∈ i.names.layers, ((layer.get? i.name).bind Binding.ty?).isSome = true)
    (exists_congr fun _ => and_congr_right fun _ => isSome_ty?_iff)

end Introduction

/-- The variable that a statement declares in its own block. -/
def Statement.introduction (names : Nest Binding) : Statement → List Introduction
  | .assign name (some _) _ _ => [⟨names, name⟩]
  | .assign _ none _ _ | .branch .. | .function .. | .print .. | .empty => []

mutual

/-- The variables that are declared in the branches of a statement, at any
    depth. The bodies of functions are no branches. -/
def Statement.introductions (names : Nest Binding) : Statement → List Introduction
  | .branch _ whenTrue whenFalse _ =>
    whenTrue.introductions names.enter ++
      match whenFalse with
      | some block => block.introductions names.enter
      | none => []
  | .assign .. | .function .. | .print .. | .empty => []

/-- The variables that are declared in a branch, at any depth. -/
def Block.introductions (names : Nest Binding) : Block → List Introduction
  | .mk statements _ => introductionsOfList true names statements

/-- The variables that are declared in the branches of some statements and, if
    these stand in a branch themselves, by the statements, too. -/
def introductionsOfList (inBranch : Bool) (names : Nest Binding) :
    List Statement → List Introduction
  | [] => []
  | statement :: rest =>
    (if inBranch then statement.introduction names else []) ++
      (statement.introductions names ++
        introductionsOfList inBranch (Lawful.behind names statement) rest)

end

/-- The variables that are declared in the branches of a program. -/
def branchIntroductions (program : Block) : List Introduction :=
  introductionsOfList false .single program.statements

/-! ### Layers in one table -/

/-- A table holds all values of some layers, and no name has a value in two of
    these. -/
structure Spread (table : Table String Value) (layers : List (Table String Value)) : Prop where
  held : ∀ layer ∈ layers, ∀ name value, layer.get? name = some value →
    table.get? name = some value
  apart : layers.Pairwise fun inner outer =>
    ∀ name, inner.get? name = none ∨ outer.get? name = none

section Spread

variable {table : Table String Value} {layers : List (Table String Value)}

theorem spread_empty (h : Spread table layers) : Spread table (.empty :: layers) where
  held layer hlayer name value hvalue := by
    rcases List.mem_cons.mp hlayer with rfl | hmem
    · cases hvalue
    · exact h.held layer hmem name value hvalue
  apart := List.pairwise_cons.mpr ⟨fun _ _ _ => Or.inl rfl, h.apart⟩

theorem spread_sublist {fewer : List (Table String Value)} (h : Spread table layers)
    (hfewer : fewer.Sublist layers) : Spread table fewer where
  held layer hlayer := h.held layer (hfewer.mem hlayer)
  apart := h.apart.sublist hfewer

theorem get?_of_spread {name : String} {value : Value} (h : Spread table layers)
    (hvalue : (layers.findSome? fun layer => layer.get? name) = some value) :
    table.get? name = some value := by
  rcases List.exists_of_findSome?_eq_some hvalue with ⟨layer, hlayer, hget⟩
  exact h.held layer hlayer name value hget

/-- A name that no other layer has can be set in one layer and the table. -/
theorem spread_insert {before behind : List (Table String Value)} {layer : Table String Value}
    {name : String} {value : Value} (h : Spread table (before ++ layer :: behind))
    (hbefore : ∀ other ∈ before, other.get? name = none)
    (hbehind : ∀ other ∈ behind, other.get? name = none) :
    Spread (table.insert name value) (before ++ layer.insert name value :: behind) := by
  rcases List.pairwise_append.mp h.apart with ⟨hfirst, hlater, hacross⟩
  rcases List.pairwise_cons.mp hlater with ⟨hlayer, hlast⟩
  refine ⟨fun some hmem other found hfound => ?_, ?_⟩
  · -- The name is in this layer only, and every other name is where it was.
    by_cases hname : other = name
    · subst hname
      rw [Table.get?_insert_self]
      rcases List.mem_append.mp hmem with hmem | hmem
      · rw [hbefore some hmem] at hfound
        cases hfound
      · rcases List.mem_cons.mp hmem with rfl | hmem
        · rw [Table.get?_insert_self] at hfound
          exact hfound
        · rw [hbehind some hmem] at hfound
          cases hfound
    · rw [Table.get?_insert_other _ _ hname]
      rcases List.mem_append.mp hmem with hmem | hmem
      · exact h.held some (List.mem_append_left _ hmem) other found hfound
      · rcases List.mem_cons.mp hmem with rfl | hmem
        · rw [Table.get?_insert_other _ _ hname] at hfound
          exact h.held layer (List.mem_append_right _ List.mem_cons_self) other found hfound
        · exact h.held some (List.mem_append_right _ (List.mem_cons_of_mem _ hmem)) other found
            hfound
  · refine List.pairwise_append.mpr ⟨hfirst, List.pairwise_cons.mpr ⟨?_, hlast⟩, ?_⟩
    · intro outer houter other
      by_cases hname : other = name
      · exact Or.inr (hname ▸ hbehind outer houter)
      · rw [Table.get?_insert_other _ _ hname]
        exact hlayer outer houter other
    · intro inner hinner outer houter other
      rcases List.mem_cons.mp houter with rfl | hmem
      · by_cases hname : other = name
        · exact Or.inl (hname ▸ hbefore inner hinner)
        · rw [Table.get?_insert_other _ _ hname]
          exact hacross inner hinner layer List.mem_cons_self other
      · exact hacross inner hinner outer (List.mem_cons_of_mem _ hmem) other

theorem spread_declare {layer : Table String Value} {outer : List (Table String Value)}
    {name : String} {value : Value} (h : Spread table (layer :: outer))
    (houter : ∀ other ∈ outer, other.get? name = none) :
    Spread (table.insert name value) (layer.insert name value :: outer) := by
  rw [← List.nil_append (layer :: outer)] at h
  exact spread_insert h (fun _ hmem => (List.not_mem_nil hmem).elim) houter

/-- What an assignment to the first layer that has a name does to the layers. -/
theorem assignFirst?_eq_some {name : String} {value : Value}
    {after : List (Table String Value)} (h : Nest.assignFirst? name value layers = some after) :
    ∃ before layer behind, layers = before ++ layer :: behind ∧ layer.contains name = true ∧
      (∀ other ∈ before, other.get? name = none) ∧
      after = before ++ layer.insert name value :: behind := by
  induction layers generalizing after with
  | nil => cases h
  | cons layer behind ih =>
      rw [Nest.assignFirst?] at h
      by_cases hhere : layer.contains name = true
      · rw [if_pos hhere] at h
        cases h
        exact ⟨[], layer, behind, rfl, hhere, fun _ hmem => (List.not_mem_nil hmem).elim, rfl⟩
      · rw [if_neg hhere] at h
        rcases Option.map_eq_some_iff.mp h with ⟨changed, hchanged, rfl⟩
        rcases ih hchanged with ⟨before, found, rest, rfl, hfound, hbefore, rfl⟩
        refine ⟨layer :: before, found, rest, rfl, hfound, ?_, rfl⟩
        intro other hother
        rcases List.mem_cons.mp hother with rfl | hmem
        · rw [Table.contains, Bool.not_eq_true, Option.isSome_eq_false_iff,
            Option.isNone_iff_eq_none] at hhere
          exact hhere
        · exact hbefore other hmem

theorem spread_assign {name : String} {value : Value} {values after : Nest Value}
    (h : Spread table values.layers) (hassign : values.assign? name value = some after) :
    Spread (table.insert name value) after.layers := by
  have hlayers := Nest.layers_assign? values name value
  rw [hassign, Option.map_some] at hlayers
  rcases assignFirst?_eq_some hlayers.symm with
    ⟨before, layer, behind, hsplit, hlayer, hbefore, hafter⟩
  rw [hsplit] at h
  rw [hafter]
  refine spread_insert h hbefore fun other hother => ?_
  -- The layer has the name, so the ones behind it have not.
  have hbehind := (List.pairwise_cons.mp (List.pairwise_append.mp h.apart).2.1).1 other hother
  rcases hbehind name with hnone | hnone
  · rw [Table.contains, hnone] at hlayer
    cases hlayer
  · exact hnone

end Spread

/-! ### A context without scopes -/

/-- A context as it is at the start, with a tree that records nothing and the
    global frame alone. -/
def Context.Flat (context : Context) : Prop :=
  Context.SameShape (Context.start .initial .unbounded) context

/-- A plain state and a context without scopes in which its layers are spread
    over the one frame. -/
structure Unscoped (state : Plain.State) (context : Context) : Prop where
  flat : context.Flat
  sink : context.sink = state.sink
  spread : Spread context.top.values state.values.layers

theorem ancestors_initial : ScopeTree.initial.ancestors globalScope = [globalScope] := by
  rw [ScopeTree.ancestors]
  rfl

section Flat

variable {context : Context} (h : context.Flat)

include h

theorem aligned_of_flat : context.Aligned :=
  Context.aligned_of_sameShape h ancestors_initial.symm

theorem nest_of_flat : context.nest = { top := context.top.values, below := [] } := by
  have hbelow : context.below = [] := by
    have hframes := h.frames
    rw [Context.frames, List.map_cons] at hframes
    exact List.map_eq_nil_iff.mp (List.cons.inj hframes).2
  rw [Context.nest, hbelow]
  rfl

end Flat

/-- Where no scope is recorded, a block runs as its statements do. -/
theorem inBlock_of_flat {context : Context} (h : context.Flat) (site : Site)
    (statements : Run Unit) : Run.inBlock site statements context = statements context := by
  have hnone : context.scopes.blockScope? site = none := by
    rw [h.scopes]
    rfl
  rw [Run.inBlock, hnone]

/-! ### Single steps -/

/-- The value of an expression that has a type depends on the variables only
    that are known. -/
theorem eval_of_variables {names : Nest Binding} {a b : Nest Value}
    (h : ∀ name ty, names.get? name = some (.var ty) → a.get? name = b.get? name)
    {expr : Expr} {ty : Ty} (hty : Lexical.typeOf names expr = .ok ty) :
    Plain.eval a expr = Plain.eval b expr := by
  induction expr generalizing ty with
  | number value line => rfl
  | literal value line => rfl
  | var name line =>
      rw [Plain.eval, Plain.eval, h name ty (Lexical.variableTy_eq_ok.mp hty)]
  | arith op left right line ihl ihr =>
      rw [Lexical.typeOf] at hty
      rcases except_bind_eq_ok.mp hty with ⟨leftTy, hleft, hrest⟩
      rcases except_bind_eq_ok.mp hrest with ⟨rightTy, hright, _⟩
      rw [Plain.eval, Plain.eval, ihl hleft, ihr hright]
  | signed sign operand line ih =>
      rw [Lexical.typeOf] at hty
      rcases except_bind_eq_ok.mp hty with ⟨operandTy, hoperand, _⟩
      rw [Plain.eval, Plain.eval, ih hoperand]
  | compare order left right line ihl ihr =>
      rw [Lexical.typeOf] at hty
      rcases except_bind_eq_ok.mp hty with ⟨leftTy, hleft, hrest⟩
      rcases except_bind_eq_ok.mp hrest with ⟨rightTy, hright, _⟩
      rw [Plain.eval, Plain.eval, ihl hleft, ihr hright]

/-- A name that is no variable of some layers has no value in the layers that
    fit them. -/
theorem get?_none_of_forall₂ {values : List (Table String Value)}
    {names : List (Table String Binding)} {name : String} (h : List.Forall₂ Fits values names)
    (hnew : ∀ layer ∈ names, (layer.get? name).bind Binding.ty? = none) :
    ∀ other ∈ values, other.get? name = none := by
  induction h with
  | nil => exact fun _ hmem => (List.not_mem_nil hmem).elim
  | @cons first layer _ _ hfits _ ih =>
      rw [List.forall_mem_cons] at hnew ⊢
      refine ⟨?_, ih hnew.2⟩
      have hlayer := hfits name
      rw [hnew.1] at hlayer
      exact Option.map_eq_none_iff.mp hlayer

theorem layers_leave_sublist (values : Nest Value) :
    values.leave.layers.Sublist values.layers := by
  rcases values with ⟨top, _ | ⟨layer, outer⟩⟩
  · exact List.Sublist.refl _
  · exact List.sublist_cons_self top (layer :: outer)

/-- Two runs that end alike: both well, and still in step, or with the same
    error and the same output. -/
def Agrees : EStateM.Result RuntimeError Plain.State Unit →
    EStateM.Result RuntimeError Context Unit → Prop
  | .ok _ state, .ok _ context => Unscoped state context
  | .error e state, .error e' context => e' = e ∧ context.sink = state.sink
  | .ok .., .error .. | .error .., .ok .. => False

section Outcomes

variable {state : Plain.State} {context : Context}

theorem agrees_bind {x : Plain.Exec Unit} {y : Run Unit} {f : Unit → Plain.Exec Unit}
    {g : Unit → Run Unit} (hxy : Agrees (x state) (y context))
    (hfg : ∀ next after, x state = .ok () next → Unscoped next after →
      Agrees (f () next) (g () after)) :
    Agrees ((x >>= f) state) ((y >>= g) context) := by
  rw [bind_apply, bind_apply]
  cases hx : x state with
  | ok u next =>
      cases hy : y context with
      | ok u after =>
          rw [hx, hy] at hxy
          exact hfg next after hx hxy
      | error e after =>
          rw [hx, hy] at hxy
          cases hxy
  | error e next =>
      cases hy : y context with
      | ok u after =>
          rw [hx, hy] at hxy
          cases hxy
      | error e' after =>
          rw [hx, hy] at hxy
          exact hxy

theorem agrees_print (h : Unscoped state context) (value : Value) :
    Agrees (Plain.print value state) (Run.print value context) := by
  rw [Plain.print, Run.print, h.sink]
  cases state.sink.write (value.text ++ "\n") with
  | ok u sink => exact ⟨Context.sameShape_trans h.flat ⟨rfl, rfl⟩, rfl, h.spread⟩
  | error e sink => exact ⟨rfl, rfl⟩

/-- A branch that runs alike in a layer of its own and in the frame that is
    there runs alike as a branch. Behind it the frame may hold more than the
    layers do. -/
theorem agrees_inside {statements : Plain.Exec Unit} {others : Run Unit} {site : Site}
    (h : Unscoped state context)
    (hblock : Unscoped { state with values := state.values.enter } context →
      Agrees (statements { state with values := state.values.enter }) (others context)) :
    Agrees (Plain.inside statements state) (Run.inBlock site others context) := by
  have hentered := hblock ⟨h.flat, h.sink, spread_empty h.spread⟩
  rw [inBlock_of_flat h.flat, Plain.inside]
  cases hs : statements { state with values := state.values.enter } with
  | ok u last =>
      cases hc : others context with
      | ok u after =>
          rw [hs, hc] at hentered
          exact ⟨hentered.flat, hentered.sink,
            spread_sublist hentered.spread (layers_leave_sublist last.values)⟩
      | error e after =>
          rw [hs, hc] at hentered
          cases hentered
  | error e last =>
      cases hc : others context with
      | ok u after =>
          rw [hs, hc] at hentered
          cases hentered
      | error e' after =>
          rw [hs, hc] at hentered
          exact hentered

end Outcomes

section Steps

variable {state : Plain.State} {context : Context} {names : Nest Binding}
  (hfits : Nest.Related Fits state.values names) (h : Unscoped state context)

include hfits h

/-- A variable that is known has the same value on both sides. -/
theorem get?_of_unscoped {name : String} {ty : Ty} (hname : names.get? name = some (.var ty)) :
    context.nest.get? name = state.values.get? name := by
  rcases Plain.get?_of_related_fits hfits hname with ⟨value, hvalue, _⟩
  rw [hvalue, nest_of_flat h.flat, Nest.get?, Nest.layers, List.findSome?_cons,
    get?_of_spread h.spread hvalue]

theorem eval_of_unscoped {expr : Expr} {ty : Ty} (hty : Lexical.typeOf names expr = .ok ty) :
    context.eval expr = Plain.eval state.values expr := by
  rw [eval_of_aligned (aligned_of_flat h.flat)]
  exact eval_of_variables (fun name _ hname => get?_of_unscoped hfits h hname) hty

theorem agrees_eval_bind {expr : Expr} {ty : Ty} {f : Value → Plain.Exec Unit}
    {g : Value → Run Unit} (hty : Lexical.typeOf names expr = .ok ty)
    (hfg : ∀ value, value.ty = ty → Agrees (f value state) (g value context)) :
    Agrees ((Plain.evaluate expr >>= f) state) ((Run.eval expr >>= g) context) := by
  have hyields := Plain.yields_eval hfits hty
  rw [bind_apply, bind_apply, Plain.evaluate, Run.eval, eval_of_unscoped hfits h hty]
  cases heval : Plain.eval state.values expr with
  | ok value =>
      rw [heval] at hyields
      exact hfg value hyields
  | error e => exact ⟨rfl, h.sink⟩

/-- Both sides declare a variable. No scope around has one of that name. -/
theorem agrees_declare {name : String}
    (hnew : ∀ layer ∈ names.below, (layer.get? name).bind Binding.ty? = none) (value : Value) :
    Agrees (Plain.declare name value state) (Run.declare name value context) :=
  ⟨Context.sameShape_trans h.flat ⟨rfl, rfl⟩, h.sink,
    spread_declare h.spread (get?_none_of_forall₂ hfits.2 hnew)⟩

/-- Both sides assign to a variable that is known. -/
theorem agrees_assign {name : String} {ty : Ty} {value : Value}
    (hname : names.get? name = some (.var ty)) (hty : value.ty = ty) (line : Nat) :
    Agrees (Plain.assign name value line state) (Run.assign name value line context) := by
  rcases Plain.assign?_of_related_fits hfits hname hty with ⟨after, hafter, _⟩
  -- The frame has the variable, too, so it is changed there.
  have hheld : context.nest.top.contains name = true := by
    rcases Plain.get?_of_related_fits hfits hname with ⟨old, hold, _⟩
    rw [Table.contains, nest_of_flat h.flat, get?_of_spread h.spread hold, Option.isSome_some]
  have hnest := Context.nest_assign? (aligned_of_flat h.flat) name value
  rw [Nest.assign?, if_pos hheld] at hnest
  rcases Option.map_eq_some_iff.mp hnest with ⟨changed, hchanged, htop⟩
  rw [Plain.assign, hafter, Run.assign, hchanged]
  refine ⟨Context.sameShape_trans h.flat (Context.sameShape_assign? hchanged),
    (Context.sink_assign? hchanged).trans h.sink, ?_⟩
  have hvalues : changed.top.values = context.top.values.insert name value :=
    congrArg Nest.top htop
  rw [hvalues]
  exact spread_assign h.spread hafter

end Steps

/-! ### Statements -/

/-- What repeats no variable is none of the scopes around. -/
theorem new_of_not_repeats {i : Introduction} (h : ¬ i.Repeats) :
    ∀ layer ∈ i.names.below, (layer.get? i.name).bind Binding.ty? = none := by
  intro layer hlayer
  rw [← Option.isNone_iff_eq_none, ← Option.isSome_eq_false_iff]
  refine Bool.eq_false_iff.mpr fun hsome => h ⟨layer, List.mem_cons_of_mem _ hlayer, ?_⟩
  exact isSome_ty?_iff.mp hsome

-- By recursion over the program. The names of the rules say which variables are known, and that
-- the values of the plain run fit them is handed on by its soundness.
mutual

theorem agrees_runStatement (site : Site) (index : Nat) :
    ∀ (statement : Statement) {names after : Nest Binding} {state : Plain.State}
      {context : Context}, Nest.Related Fits state.values names →
      Lexical.checkStatement names statement = .ok after →
      (∀ i ∈ statement.introduction names, names.below = [] ∨ ¬ i.Repeats) →
      (∀ i ∈ statement.introductions names, ¬ i.Repeats) → Unscoped state context →
      Agrees (Plain.runStatement statement state) (runStatement site index statement context)
  | .assign name (some ty) value line, names, after, state, context, hfits, hcheck, hown, _, h => by
      have hty := (Lexical.checkStatement_declaration.mp hcheck).1
      rw [Plain.runStatement, runStatement]
      refine agrees_eval_bind hfits h hty fun assigned _ => agrees_declare hfits h ?_ assigned
      rcases hown ⟨names, name⟩ List.mem_cons_self with hbelow | hnew
      · rw [hbelow]
        exact fun _ hmem => (List.not_mem_nil hmem).elim
      · exact new_of_not_repeats hnew
  | .assign name none value line, names, after, state, context, hfits, hcheck, _, _, h => by
      rcases Lexical.checkStatement_assignment.mp hcheck with ⟨⟨ty, hname, hvalue⟩, _⟩
      rw [Plain.runStatement, runStatement]
      refine agrees_eval_bind hfits h hvalue fun assigned hassigned => ?_
      exact agrees_assign hfits h (Lexical.variableTy_eq_ok.mp hname) hassigned line
  | .branch condition whenTrue none line, names, after, state, context, hfits, hcheck, _, hnew,
      h => by
      rcases Lexical.checkStatement_branch.mp hcheck with ⟨⟨ty, hty⟩, ⟨inner, hinner⟩, _, _⟩
      rw [Statement.introductions, List.append_nil] at hnew
      have hentered := Nest.related_enter hfits Plain.fits_empty
      rw [Plain.runStatement, runStatement]
      refine agrees_eval_bind hfits h hty fun decided _ => ?_
      match decided with
      | .bool true => exact agrees_inside h (agrees_runBlock _ whenTrue hentered hinner hnew)
      | .bool false => exact h
      | .int _ | .real _ | .str _ => exact ⟨rfl, h.sink⟩
  | .branch condition whenTrue (some block) line, names, after, state, context, hfits, hcheck, _,
      hnew, h => by
      rcases Lexical.checkStatement_branch.mp hcheck with ⟨⟨ty, hty⟩, ⟨inner, hinner⟩, hfalse, _⟩
      rcases hfalse block rfl with ⟨other, hother⟩
      rw [Statement.introductions, List.forall_mem_append] at hnew
      have hentered := Nest.related_enter hfits Plain.fits_empty
      rw [Plain.runStatement, runStatement]
      refine agrees_eval_bind hfits h hty fun decided _ => ?_
      match decided with
      | .bool true => exact agrees_inside h (agrees_runBlock _ whenTrue hentered hinner hnew.1)
      | .bool false => exact agrees_inside h (agrees_runBlock _ block hentered hother hnew.2)
      | .int _ | .real _ | .str _ => exact ⟨rfl, h.sink⟩
  | .function name params body line, names, after, state, context, _, _, _, _, h => by
      rw [Plain.runStatement, runStatement]
      exact h
  | .print value line, names, after, state, context, hfits, hcheck, _, _, h => by
      rcases Lexical.checkStatement_print.mp hcheck with ⟨⟨ty, hty⟩, _⟩
      rw [Plain.runStatement, runStatement]
      exact agrees_eval_bind hfits h hty fun printed _ => agrees_print h printed
  | .empty, names, after, state, context, _, _, _, _, h => by
      rw [Plain.runStatement, runStatement]
      exact h

theorem agrees_runBlock (site : Site) :
    ∀ (block : Block) {names after : Nest Binding} {state : Plain.State} {context : Context},
      Nest.Related Fits state.values names → Lexical.checkBlock names block = .ok after →
      (∀ i ∈ block.introductions names, ¬ i.Repeats) → Unscoped state context →
      Agrees (Plain.runBlock block state) (runBlock site block context)
  | .mk statements line, names, after, state, context, hfits, hcheck, hnew, h => by
      rw [Lexical.checkBlock] at hcheck
      rw [Block.introductions] at hnew
      have hinside : true = false → names.below = [] := nofun
      rw [Plain.runBlock, runBlock]
      exact agrees_runStatements site 0 statements hfits hcheck hinside hnew h

/-- Statements that pass run alike with and without layers, if the branches in
    them repeat no variable. Statements that stand in no branch are checked in
    one layer only, and there is nothing that they could repeat. -/
theorem agrees_runStatements (site : Site) :
    ∀ (index : Nat) (statements : List Statement) {inBranch : Bool} {names after : Nest Binding}
      {state : Plain.State} {context : Context}, Nest.Related Fits state.values names →
      Lexical.checkStatements names statements = .ok after →
      (inBranch = false → names.below = []) →
      (∀ i ∈ introductionsOfList inBranch names statements, ¬ i.Repeats) →
      Unscoped state context →
      Agrees (Plain.runStatements statements state) (runStatements site index statements context)
  | index, [], inBranch, names, after, state, context, _, _, _, _, h => by
      rw [Plain.runStatements, runStatements]
      exact h
  | index, statement :: rest, inBranch, names, after, state, context, hfits, hcheck, hone, hnew,
      h => by
      rcases Lexical.checkStatements_cons.mp hcheck with ⟨mid, hmid, hrest⟩
      rw [introductionsOfList, List.forall_mem_append, List.forall_mem_append] at hnew
      have hown : ∀ i ∈ statement.introduction names, names.below = [] ∨ ¬ i.Repeats := by
        intro i hi
        cases inBranch with
        | true => exact Or.inr (hnew.1 i hi)
        | false => exact Or.inl (hone rfl)
      have hfirst := agrees_runStatement site index statement hfits hmid hown hnew.2.1 h
      rw [Plain.runStatements, runStatements]
      refine agrees_bind hfirst fun next changed hnext hchanged => ?_
      -- What the statement leaves fits the names behind it.
      have hsound := Plain.sound_runStatement statement hfits hmid
      rw [hnext] at hsound
      have hbelow := Lexical.below_checkStatement hmid
      have hlater := hnew.2.2
      rw [← Lawful.checkStatement_eq_ok hmid] at hlater
      exact agrees_runStatements site (index + 1) rest hsound hrest
        (fun hout => hbelow.trans (hone hout)) hlater hchanged

end

/-! ### Programs -/

theorem mapState_of_agrees {first : EStateM.Result RuntimeError Plain.State Unit}
    {second : EStateM.Result RuntimeError Context Unit} (h : Agrees first second) :
    mapState Context.sink second = mapState Plain.State.sink first := by
  cases first with
  | ok u state =>
      cases second with
      | ok u context => rw [mapState, mapState, h.sink]
      | error e context => cases h
  | error e state =>
      cases second with
      | ok u context => cases h
      | error e' context => rw [mapState, mapState, h.1, h.2]

/-- The output and the result of a run are those of the plain run. -/
theorem sink_execute {program : Block} {scopes : ScopeTree} (h : analyze program = .ok scopes)
    (sink : Sink) :
    mapState Context.sink (execute program scopes sink) =
      mapState Plain.State.sink (Plain.execute program sink) := by
  rw [← plain_execute h sink]
  cases execute program scopes sink with
  | ok u context => rfl
  | error e context => rfl

/-- A variable that a function hides, and that a branch further in declares
    anew. -/
def veiled : Block :=
  .mk
    [ .assign "y" (some .int) (.number 1 1) 1,
      .branch (.literal (.bool true) 1)
        (.mk
          [ .function "y" [] (.mk [.empty] 1) 1,
            .branch (.literal (.bool true) 1)
              (.mk [.assign "y" (some .int) (.number 2 1) 1] 1) none 1 ] 1)
        none 1,
      .print (.var "y" 1) 1 ] 1

/-- Without scopes a program can run otherwise although no branch of it
    declares a variable whose name stands for one: in `veiled` the name stands
    for a function, and behind that is the variable that is overwritten. -/
theorem hidden_variable_is_overwritten :
    ¬ ∀ (program : Block) (scopes : ScopeTree) (sink : Sink), analyze program = .ok scopes →
      (∀ i ∈ branchIntroductions program, ¬ i.Shadows) →
      mapState Context.sink (execute program .initial sink) =
        mapState Context.sink (execute program scopes sink) := by
  intro hclaim
  have haccepted : (analyze veiled).isOk = true := by decide +kernel
  have hfree : ∀ i ∈ branchIntroductions veiled, ¬ i.Shadows := by decide +kernel
  -- Without scopes it prints 2, and with them 1.
  have hflat : (state (execute veiled .initial .unbounded)).sink.written = [50, 10] := by
    decide +kernel
  have hplain : (state (Plain.execute veiled .unbounded)).sink.written = [49, 10] := by
    decide +kernel
  cases hanalyze : analyze veiled with
  | error e =>
      rw [hanalyze] at haccepted
      cases haccepted
  | ok scopes =>
      have hsame := congrArg state (hclaim veiled scopes .unbounded hanalyze hfree)
      rw [sink_execute hanalyze, state_mapState, state_mapState] at hsame
      rw [hsame, hplain] at hflat
      exact absurd hflat (by decide)

/-- An accepted program in which no branch declares a variable of a name that
    is a variable in a scope around it, hidden or not, runs without scopes as
    it does with its own: it prints the same, and ends alike, well or with the
    same error at the same line. -/
theorem unscoped_run_agrees {program : Block} {scopes : ScopeTree}
    (h : analyze program = .ok scopes)
    (hnew : ∀ i ∈ branchIntroductions program, ¬ i.Repeats) (sink : Sink) :
    mapState Context.sink (execute program .initial sink) =
      mapState Context.sink (execute program scopes sink) := by
  rw [sink_execute h sink]
  have hfits : Nest.Related Fits (Plain.State.start sink).values
      (ScopeTree.initial.names globalScope) := (typed_start h sink).fits
  have hcheck := lexical_of_analyze h
  rw [Lawful.names_initial] at hfits hcheck
  have hstart : Unscoped (Plain.State.start sink) (Context.start .initial sink) := by
    refine ⟨⟨rfl, rfl⟩, rfl, ?_, ?_⟩
    · intro layer hlayer name value hvalue
      rw [List.mem_singleton.mp hlayer] at hvalue
      cases hvalue
    · exact List.pairwise_singleton _ _
  rcases program with ⟨statements, line⟩
  rw [Lexical.checkBlock] at hcheck
  refine mapState_of_agrees ?_
  rw [execute, runBlock, Plain.execute, Plain.runBlock]
  exact agrees_runStatements (.root 0) 0 statements hfits hcheck (fun _ => rfl) hnew hstart

/-- Branches that declare the same names one after the other, in different
    types, and a declaration of one of these names behind them. -/
def scattered : Block :=
  .mk
    [ .assign "x" (some .int) (.number 1 1) 1,
      .branch (.compare .less (.var "x" 2) (.number 2 2) 2)
        (.mk
          [ .assign "y" (some .int) (.var "x" 2) 2,
            .branch (.literal (.bool true) 3)
              (.mk [.assign "z" (some .str) (.literal (.str "in") 3) 3, .print (.var "z" 3) 3] 3)
              none 3,
            .assign "x" none (.arith .add (.var "y" 4) (.number 1 4) 4) 4 ] 2)
        (some (.mk [.assign "y" (some .bool) (.literal (.bool false) 5) 5] 5)) 2,
      .function "z" [{ name := "x", ty := .bool, line := 6 }] (.mk [.empty] 6) 6,
      .assign "y" (some .float) (.arith .div (.var "x" 7) (.number 2 7) 7) 7,
      .branch (.compare .greater (.var "y" 8) (.number 0 8) 8)
        (.mk [.assign "z" (some .int) (.number 0 8) 8,
          .print (.arith .div (.var "y" 9) (.var "z" 9) 9) 9] 8)
        none 8 ] 1

theorem unscoped_run_agrees_scattered :
    ∃ scopes, analyze scattered = .ok scopes ∧
      (∀ i ∈ branchIntroductions scattered, ¬ i.Repeats) ∧
      mapState Context.sink (execute scattered .initial (.bounded 9)) =
        mapState Context.sink (execute scattered scopes (.bounded 9)) := by
  have haccepted : (analyze scattered).isOk = true := by decide +kernel
  have hnew : ∀ i ∈ branchIntroductions scattered, ¬ i.Repeats := by decide +kernel
  cases hanalyze : analyze scattered with
  | error e =>
      rw [hanalyze] at haccepted
      cases haccepted
  | ok scopes => exact ⟨scopes, rfl, hnew, unscoped_run_agrees hanalyze hnew _⟩

end Scriptlet
