import Scriptlet.Proofs.Run.Plain
import Scriptlet.Proofs.Typing.Lexical
import Scriptlet.Proofs.Value.Typing

/-!
# Soundness of the Rules

A program that passes the lexical check does not go wrong in a plain run. The
values that are bound fit the names that are known: layer by layer, exactly the
variables have values, and each value has the type of its variable. An
expression with a type then yields a value of that type, and a statement leads
from values that fit the names before it to values that fit the names after it.
A statement that fails has declared nothing in its own layer, so what it leaves
fits the names before it.

The rules do not ask what a condition is, so this alone would allow a condition
that is no truth value. `Block.guarded` says of a program that its conditions
are truth values by their form.

## Main definitions

* `Fits`: Values of the right types for exactly the variables of a layer.
* `Statement.guarded`, `Block.guarded`: Conditions are comparisons or truth
  values.
* `RuntimeError.Benign`: An error that accepted programs can have.
* `Sound`: What an outcome leaves fits.

## Theorems

* `yields_eval`: Expressions yield values of their types.
* `sound_runStatement`, `sound_runStatements`: Statements keep the fit.
-/

namespace Scriptlet

open Outcome

/-- A layer of values fits a layer of names: exactly the variables have values,
    and these are of their types. -/
def Fits (values : Table String Value) (names : Table String Binding) : Prop :=
  ∀ name, (values.get? name).map Value.ty = (names.get? name).bind Binding.ty?

/-- Whether an expression is a truth value by its form. -/
def Expr.isTruth : Expr → Bool
  | .compare .. => true
  | .literal (.bool _) _ => true
  | .number .. | .literal (.str _) _ | .var .. | .arith .. | .signed .. => false

mutual

/-- Whether all conditions in a statement are truth values by their form. -/
def Statement.guarded : Statement → Bool
  | .branch condition whenTrue whenFalse _ =>
    condition.isTruth && whenTrue.guarded &&
      match whenFalse with
      | some block => block.guarded
      | none => true
  | .function _ _ body _ => body.guarded
  | .assign .. | .print .. | .empty => true

/-- Whether all conditions in a block are truth values by their form. -/
def Block.guarded : Block → Bool
  | .mk statements _ => guardedOfList statements

/-- Whether all conditions in some statements are truth values by their
    form. -/
def guardedOfList : List Statement → Bool
  | [] => true
  | statement :: rest => statement.guarded && guardedOfList rest

end

/-- A conditional is guarded if its condition is a truth value and its blocks are
    guarded. -/
theorem guarded_branch {condition : Expr} {whenTrue : Block} {whenFalse : Option Block}
    {line : Nat} (h : (Statement.branch condition whenTrue whenFalse line).guarded = true) :
    condition.isTruth = true ∧ whenTrue.guarded = true ∧
      ∀ block, whenFalse = some block → block.guarded = true := by
  cases whenFalse with
  | none =>
      rw [Statement.guarded, Bool.and_eq_true, Bool.and_eq_true] at h
      exact ⟨h.1.1, h.1.2, fun block hblock => (nomatch hblock)⟩
  | some other =>
      rw [Statement.guarded, Bool.and_eq_true, Bool.and_eq_true] at h
      refine ⟨h.1.1, h.1.2, fun block hblock => ?_⟩
      cases hblock
      exact h.2

/-- An error that a program can have although it was accepted. -/
def RuntimeError.Benign (e : RuntimeError) : Prop := e.kind = .arithmetic ∨ e.kind = .output

namespace Plain

/-! ### Layers that fit -/

theorem fits_empty : Fits .empty .empty := fun _ => rfl

theorem get?_of_fits {values : Table String Value} {names : Table String Binding} {name : String}
    {ty : Ty} (h : Fits values names) (hname : names.get? name = some (.var ty)) :
    ∃ value, values.get? name = some value ∧ value.ty = ty := by
  have hfits := h name
  rw [hname] at hfits
  rcases Option.map_eq_some_iff.mp hfits with ⟨value, hvalue, hty⟩
  exact ⟨value, hvalue, hty⟩

theorem get?_none_of_fits {values : Table String Value} {names : Table String Binding}
    {name : String} (h : Fits values names) (hname : names.get? name = none) :
    values.get? name = none := by
  have hfits := h name
  rw [hname] at hfits
  exact Option.map_eq_none_iff.mp hfits

/-- A new variable with a value of its type. -/
theorem fits_declare {values : Table String Value} {names : Table String Binding} {name : String}
    {value : Value} {ty : Ty} (h : Fits values names) (hty : value.ty = ty) :
    Fits (values.insert name value) (names.insert name (.var ty)) := by
  intro other
  by_cases hother : other = name
  · rw [hother, Table.get?_insert_self, Table.get?_insert_self, Option.map_some, hty]
    rfl
  · rw [Table.get?_insert_other _ _ hother, Table.get?_insert_other _ _ hother]
    exact h other

/-- A new value, of the same type, for a variable that is there. -/
theorem fits_assign {values : Table String Value} {names : Table String Binding} {name : String}
    {value : Value} {ty : Ty} (h : Fits values names) (hname : names.get? name = some (.var ty))
    (hty : value.ty = ty) : Fits (values.insert name value) names := by
  intro other
  by_cases hother : other = name
  · rw [hother, Table.get?_insert_self, hname, Option.map_some, hty]
    rfl
  · rw [Table.get?_insert_other _ _ hother]
    exact h other

/-- A new function, which is a name without a value. -/
theorem fits_function {values : Table String Value} {names : Table String Binding} {name : String}
    (h : Fits values names) (hname : names.get? name = none) :
    Fits values (names.insert name .func) := by
  intro other
  by_cases hother : other = name
  · rw [hother, Table.get?_insert_self, get?_none_of_fits h hname]
    rfl
  · rw [Table.get?_insert_other _ _ hother]
    exact h other

/-! ### Expressions -/

section Nests

variable {values : Nest Value} {names : Nest Binding} (h : Nest.Related Fits values names)

include h

theorem get?_of_related_fits {name : String} {ty : Ty} (hname : names.get? name = some (.var ty)) :
    ∃ value, values.get? name = some value ∧ value.ty = ty :=
  Nest.get?_of_related (fun hfits hnone => get?_none_of_fits hfits hnone) h hname
    fun hfits hsome => get?_of_fits hfits hsome

/-- An expression with a type yields a value of that type. -/
theorem yields_eval {expr : Expr} {ty : Ty} (hty : Lexical.typeOf names expr = .ok ty) :
    Yields ty (eval values expr) := by
  induction expr generalizing ty with
  | number value line =>
      cases hty
      rfl
  | literal value line =>
      cases hty
      cases value with
      | str content => rfl
      | bool flag => rfl
  | var name line =>
      rw [Lexical.typeOf] at hty
      rcases get?_of_related_fits h (Lexical.variableTy_eq_ok.mp hty) with ⟨value, hvalue, hvty⟩
      rw [eval, hvalue]
      exact hvty
  | arith op left right line ihl ihr =>
      rw [Lexical.typeOf] at hty
      rcases except_bind_eq_ok.mp hty with ⟨leftTy, hleft, hty⟩
      rcases except_bind_eq_ok.mp hty with ⟨rightTy, hright, hty⟩
      rw [eval]
      refine yields_bind (ihl hleft) fun leftValue hl => ?_
      refine yields_bind (ihr hright) fun rightValue hr => ?_
      split at hty
      · rename_i found hfound
        cases hty
        -- The values have the types that the rules looked at.
        rw [← hl, ← hr] at hfound
        exact Value.yields_arith line hfound
      · cases hty
  | signed sign operand line ih =>
      rw [Lexical.typeOf] at hty
      rcases except_bind_eq_ok.mp hty with ⟨operandTy, hoperand, hty⟩
      rw [eval]
      refine yields_bind (ih hoperand) fun value hvalue => ?_
      split at hty
      · rename_i hnumeric
        cases hty
        rw [← hvalue] at hnumeric ⊢
        exact Value.yields_sign sign line hnumeric
      · cases hty
  | compare order left right line ihl ihr =>
      rw [Lexical.typeOf] at hty
      rcases except_bind_eq_ok.mp hty with ⟨leftTy, hleft, hty⟩
      rcases except_bind_eq_ok.mp hty with ⟨rightTy, hright, hty⟩
      rw [eval]
      refine yields_bind (ihl hleft) fun leftValue hl => ?_
      refine yields_bind (ihr hright) fun rightValue hr => ?_
      split at hty
      · rename_i hcomparable
        cases hty
        rw [← hl, ← hr] at hcomparable
        exact Value.yields_compare order line hcomparable
      · cases hty

/-- A variable of a type can be given another value of that type. -/
theorem assign?_of_related_fits {name : String} {value : Value} {ty : Ty}
    (hname : names.get? name = some (.var ty)) (hty : value.ty = ty) :
    ∃ after, values.assign? name value = some after ∧ Nest.Related Fits after names := by
  refine Nest.assign?_of_related (fun hfits hnone => get?_none_of_fits hfits hnone) h hname
    fun hfits hsome => ⟨?_, fits_assign hfits hsome hty⟩
  rcases get?_of_fits hfits hsome with ⟨old, hold, _⟩
  rw [Table.contains, hold, Option.isSome_some]

end Nests

/-! ### Statements -/

/-- A success leaves values that fit the names after the statement, and a
    failure values that fit the names before it. Only where conditions are
    truth values is the failure sure to be a benign one. -/
def Sound (guarded : Bool) (before after : Nest Binding) :
    EStateM.Result RuntimeError State Unit → Prop
  | .ok _ state => Nest.Related Fits state.values after
  | .error e state => Nest.Related Fits state.values before ∧ (guarded = true → e.Benign)

/-- The same for a block, which leaves the layers around it as they were. A
    failure can leave some of what the block declares, so then only the layers
    around it are sure to fit. -/
def SoundBlock (guarded : Bool) (before after : Nest Binding) :
    EStateM.Result RuntimeError State Unit → Prop
  | .ok _ state => Nest.Related Fits state.values after ∧ after.below = before.below
  | .error e state =>
    List.Forall₂ Fits state.values.below before.below ∧ (guarded = true → e.Benign)

/-- What is sound behind a statement is sound in a block that starts with it,
    and that guards more. -/
theorem sound_later {guarded whole : Bool} {before mid after : Nest Binding}
    {outcome : EStateM.Result RuntimeError State Unit} (hbelow : mid.below = before.below)
    (hguard : whole = true → guarded = true) (h : SoundBlock guarded mid after outcome) :
    SoundBlock whole before after outcome := by
  cases outcome with
  | ok u state => exact ⟨h.1, h.2.trans hbelow⟩
  | error e state =>
      rw [SoundBlock, hbelow] at h
      exact ⟨h.1, fun hwhole => h.2 (hguard hwhole)⟩

/-- A write fails for no other reason than that the sink refuses. -/
theorem write_eq_error {sink after : Sink} {text : String} {e : RuntimeError}
    (h : sink.write text = .error e after) : e.kind = .output := by
  unfold Sink.write at h
  simp only [] at h
  split at h
  · cases h
  · cases h
    rfl

section Steps

variable {state : State} {names after : Nest Binding}
  (h : Nest.Related Fits state.values names)

include h

theorem sound_evaluate_bind {expr : Expr} {ty : Ty} {guarded : Bool} {f : Value → Exec Unit}
    (hty : Lexical.typeOf names expr = .ok ty)
    (hf : ∀ value, value.ty = ty → Sound guarded names after (f value state)) :
    Sound guarded names after ((evaluate expr >>= f) state) := by
  have hyields := yields_eval h hty
  rw [bind_apply, evaluate]
  cases heval : eval state.values expr with
  | ok value =>
      rw [heval] at hyields
      exact hf value hyields
  | error e =>
      rw [heval] at hyields
      exact ⟨h, fun _ => Or.inl hyields⟩

theorem sound_print (value : Value) (guarded : Bool) :
    Sound guarded names names (print value state) := by
  unfold print
  cases hw : state.sink.write (value.text ++ "\n") with
  | ok u sink => exact h
  | error e sink => exact ⟨h, fun _ => Or.inr (write_eq_error hw)⟩

/-- A block that is sound in a layer of its own is sound as a part of a
    statement, which guards it, and leaves the names as they were. -/
theorem sound_inside {guarded whole : Bool} {inner : Nest Binding} {statements : Exec Unit}
    (hblock : ∀ entered : State, Nest.Related Fits entered.values names.enter →
      SoundBlock guarded names.enter inner (statements entered))
    (hguard : whole = true → guarded = true) :
    Sound whole names names (inside statements state) := by
  have hentered : Nest.Related Fits state.values.enter names.enter :=
    Nest.related_enter h fits_empty
  have hsound := hblock { state with values := state.values.enter } hentered
  unfold inside
  cases hs : statements { state with values := state.values.enter } with
  | ok u last =>
      rw [hs] at hsound
      -- What is left has the layers that were around the block.
      have hlayers := hsound.1.2
      rw [hsound.2] at hlayers
      exact Nest.related_leave hlayers
  | error e last =>
      rw [hs] at hsound
      exact ⟨Nest.related_leave hsound.1, fun hwhole => hsound.2 (hguard hwhole)⟩

end Steps

/-- A condition that is a truth value by its form has that type. -/
theorem typeOf_isTruth {names : Nest Binding} {condition : Expr} {ty : Ty}
    (h : condition.isTruth = true) (hty : Lexical.typeOf names condition = .ok ty) :
    ty = .bool := by
  match condition with
  | .compare order left right line =>
      rw [Lexical.typeOf] at hty
      rcases except_bind_eq_ok.mp hty with ⟨_, _, hty⟩
      rcases except_bind_eq_ok.mp hty with ⟨_, _, hty⟩
      split at hty
      · cases hty
        rfl
      · cases hty
  | .literal (.bool flag) line =>
      cases hty
      rfl

/-- A choice between two blocks is sound if both are. A condition that is a
    truth value by its form always makes the choice. -/
theorem sound_decided {state : State} {names : Nest Binding} {condition : Expr} {ty : Ty}
    {line : Nat} {guarded : Bool} {whenTrue whenFalse : Exec Unit}
    (h : Nest.Related Fits state.values names) (hty : Lexical.typeOf names condition = .ok ty)
    (hguard : guarded = true → condition.isTruth = true)
    (htrue : Sound guarded names names (whenTrue state))
    (hfalse : Sound guarded names names (whenFalse state)) :
    Sound guarded names names ((evaluate condition >>= fun decided =>
      match decided with
      | .bool true => whenTrue
      | .bool false => whenFalse
      | other => throw (.expectedBoolean other.ty line)) state) := by
  refine sound_evaluate_bind h hty fun decided hdecided => ?_
  -- A condition that is a truth value by its form has no other value.
  have hno : decided.ty ≠ .bool → guarded = true → False := fun hne hg =>
    hne (hdecided.trans (typeOf_isTruth (hguard hg) hty))
  match decided with
  | .bool true => exact htrue
  | .bool false => exact hfalse
  | .int _ => exact ⟨h, fun hg => (hno (fun heq => nomatch heq) hg).elim⟩
  | .real _ => exact ⟨h, fun hg => (hno (fun heq => nomatch heq) hg).elim⟩
  | .str _ => exact ⟨h, fun hg => (hno (fun heq => nomatch heq) hg).elim⟩

-- By recursion over the program, with the values fitted to the names that the rules hand on.
mutual

theorem sound_runStatement :
    ∀ (statement : Statement) {names after : Nest Binding} {state : State},
      Nest.Related Fits state.values names → Lexical.checkStatement names statement = .ok after →
      Sound statement.guarded names after (runStatement statement state)
  | .assign name (some declared) value line, names, after, state, hfits, hcheck => by
      rw [Lexical.checkStatement] at hcheck
      rcases except_bind_eq_ok.mp hcheck with ⟨found, hfound, hdeclare⟩
      rw [runStatement]
      refine sound_evaluate_bind hfits hfound fun assigned hty => ?_
      split at hdeclare
      · rename_i hsame
        rcases Lexical.declare_eq_ok hdeclare with ⟨_, rfl⟩
        have htop : Fits (state.values.top.insert name assigned)
            (names.top.insert name (.var declared)) := fits_declare hfits.1 (hty.trans hsame)
        exact Nest.related_declare hfits htop
      · cases hdeclare
  | .assign name none value line, names, after, state, hfits, hcheck => by
      rw [Lexical.checkStatement] at hcheck
      rcases except_bind_eq_ok.mp hcheck with ⟨declared, hdeclared, hcheck⟩
      rcases except_bind_eq_ok.mp hcheck with ⟨found, hfound, hcheck⟩
      rw [runStatement]
      refine sound_evaluate_bind hfits hfound fun assigned hty => ?_
      split at hcheck
      · rename_i hsame
        cases hcheck
        have hname := Lexical.variableTy_eq_ok.mp hdeclared
        rcases assign?_of_related_fits hfits hname (hty.trans hsame)
          with ⟨changed, hchanged, hrelated⟩
        rw [assign, hchanged]
        exact hrelated
      · cases hcheck
  | .branch condition whenTrue none line, names, after, state, hfits, hcheck => by
      rw [Lexical.checkStatement] at hcheck
      rcases except_bind_eq_ok.mp hcheck with ⟨ty, hty, hcheck⟩
      rcases except_bind_eq_ok.mp hcheck with ⟨inner, hinner, hcheck⟩
      cases hcheck
      rw [runStatement]
      refine sound_decided hfits hty (fun hguard => (guarded_branch hguard).1) ?_ hfits
      exact sound_inside hfits (fun entered hentered => sound_runBlock whenTrue hentered hinner)
        fun hguard => (guarded_branch hguard).2.1
  | .branch condition whenTrue (some block) line, names, after, state, hfits, hcheck => by
      rw [Lexical.checkStatement] at hcheck
      rcases except_bind_eq_ok.mp hcheck with ⟨ty, hty, hcheck⟩
      rcases except_bind_eq_ok.mp hcheck with ⟨inner, hinner, hcheck⟩
      rcases except_bind_eq_ok.mp hcheck with ⟨other, hother, hcheck⟩
      cases hcheck
      rw [runStatement]
      refine sound_decided hfits hty (fun hguard => (guarded_branch hguard).1) ?_ ?_
      · exact sound_inside hfits (fun entered hentered => sound_runBlock whenTrue hentered hinner)
          fun hguard => (guarded_branch hguard).2.1
      · exact sound_inside hfits (fun entered hentered => sound_runBlock block hentered hother)
          fun hguard => (guarded_branch hguard).2.2 block rfl
  | .function name params body line, names, after, state, hfits, hcheck => by
      rw [Lexical.checkStatement] at hcheck
      rcases except_bind_eq_ok.mp hcheck with ⟨outer, houter, hcheck⟩
      rcases except_bind_eq_ok.mp hcheck with ⟨inner, _, hcheck⟩
      rcases except_bind_eq_ok.mp hcheck with ⟨last, _, hcheck⟩
      cases hcheck
      rcases Lexical.declare_eq_ok houter with ⟨hfree, rfl⟩
      rw [runStatement]
      -- Nothing runs, and a function is a name without a value.
      exact ⟨fits_function hfits.1 hfree, hfits.2⟩
  | .print value line, names, after, state, hfits, hcheck => by
      rw [Lexical.checkStatement] at hcheck
      rcases except_bind_eq_ok.mp hcheck with ⟨ty, hty, hcheck⟩
      cases hcheck
      rw [runStatement]
      exact sound_evaluate_bind hfits hty fun printed _ => sound_print hfits printed _
  | .empty, names, after, state, hfits, hcheck => by
      rw [Lexical.checkStatement] at hcheck
      cases hcheck
      rw [runStatement]
      exact hfits

theorem sound_runBlock :
    ∀ (block : Block) {names after : Nest Binding} {state : State},
      Nest.Related Fits state.values names → Lexical.checkBlock names block = .ok after →
      SoundBlock block.guarded names after (runBlock block state)
  | .mk statements line, names, after, state, hfits, hcheck => by
      rw [Lexical.checkBlock] at hcheck
      rw [runBlock, Block.guarded]
      exact sound_runStatements statements hfits hcheck

theorem sound_runStatements :
    ∀ (statements : List Statement) {names after : Nest Binding} {state : State},
      Nest.Related Fits state.values names → Lexical.checkStatements names statements = .ok after →
      SoundBlock (guardedOfList statements) names after (runStatements statements state)
  | [], names, after, state, hfits, hcheck => by
      rw [Lexical.checkStatements] at hcheck
      cases hcheck
      rw [runStatements]
      exact ⟨hfits, rfl⟩
  | statement :: rest, names, after, state, hfits, hcheck => by
      rw [Lexical.checkStatements] at hcheck
      rcases except_bind_eq_ok.mp hcheck with ⟨mid, hmid, hrest⟩
      have hsound := sound_runStatement statement hfits hmid
      rw [runStatements, guardedOfList, bind_apply]
      cases hs : runStatement statement state with
      | ok u next =>
          rw [hs] at hsound
          refine sound_later (Lexical.below_checkStatement hmid) (fun hguard => ?_)
            (sound_runStatements rest hsound hrest)
          rw [Bool.and_eq_true] at hguard
          exact hguard.2
      | error e next =>
          rw [hs] at hsound
          -- All layers fit the names before the statement that failed, the outer ones among them.
          refine ⟨hsound.1.2, fun hguard => hsound.2 ?_⟩
          rw [Bool.and_eq_true] at hguard
          exact hguard.1

end

end Plain

end Scriptlet
