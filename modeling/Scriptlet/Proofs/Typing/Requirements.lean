import Scriptlet.Proofs.Typing.Lexical

/-!
# What a Program Has to Meet

The rules of names and types as a list of single requirements, one for each
place of a program that can be at fault. A requirement stands among the names
that are in force at its place: what the enclosing scopes declare before it.
Those names are read off the program text alone. Nothing is checked on the way,
no requirement waits for another, and a program is lawful if it meets them all.

The list is in source order, so it also says which fault comes first. A
declaration asks for its value, then for the type of the value, then for a free
name. An assignment asks for its target before its value. A function asks for
its name, then its parameters, then its body, and it is in force in its own
body.

A requirement can be met, or violated with the error that tells why. It can
also be neither: a sum of operands that have no type asks for nothing that
could be judged. Then an operand of it is at fault, and that requirement comes
before.

## Main definitions

* `HasType`: The type of an expression among some names.
* `Rule`: What a single place of a program asks for.
* `Requirement`: A rule with the names in force at its place.
* `Requirement.Met`, `Requirement.Violated`: When it is met, and the error of
  its violation.
* `ofExpr`, `ofStatement`, `ofBlock`: The requirements in source order.
* `FirstViolated`: The error of the first requirement that is not met.

## Theorems

* `hasType_unique`: An expression has at most one type.
* `not_violated_of_met`: No requirement is both met and violated.
* `firstViolated_unique`: There is at most one first error.
-/

namespace Scriptlet

namespace Lawful

/-- A name stands for a binding: the innermost scope that declares the name
    declares it so. -/
def Resolves (names : Nest Binding) (name : String) (binding : Binding) : Prop :=
  names.get? name = some binding

/-- A name that the innermost scope does not declare. -/
def IsFree (names : Nest Binding) (name : String) : Prop := names.top.get? name = none

/-- An expression has a type among some names. -/
inductive HasType (names : Nest Binding) : Expr → Ty → Prop where
  | number (value : Int64) (line : Nat) : HasType names (.number value line) .int
  | str (content : String) (line : Nat) : HasType names (.literal (.str content) line) .str
  | bool (value : Bool) (line : Nat) : HasType names (.literal (.bool value) line) .bool
  | var {name : String} {ty : Ty} (line : Nat) (resolves : Resolves names name (.var ty)) :
      HasType names (.var name line) ty
  | arith {op : ArithOp} {left right : Expr} {leftTy rightTy ty : Ty} (line : Nat)
      (first : HasType names left leftTy) (second : HasType names right rightTy)
      (result : Ty.arith? op leftTy rightTy = some ty) :
      HasType names (.arith op left right line) ty
  | signed {operand : Expr} {ty : Ty} (sign : Sign) (line : Nat)
      (inner : HasType names operand ty) (numeric : ty.isNumeric = true) :
      HasType names (.signed sign operand line) ty
  | compare {left right : Expr} {leftTy rightTy : Ty} (order : Order) (line : Nat)
      (first : HasType names left leftTy) (second : HasType names right rightTy)
      (comparable : leftTy.comparable rightTy = true) :
      HasType names (.compare order left right line) .bool

/-- What a single place of a program asks for. -/
inductive Rule where
  /-- The name stands for a variable. -/
  | reference (name : String) (line : Nat)
  /-- The operator takes operands of these types. -/
  | operands (op : ArithOp) (left right : Expr) (line : Nat)
  /-- The sign takes an operand of this type. -/
  | operand (sign : Sign) (operand : Expr) (line : Nat)
  /-- The two sides can be compared. -/
  | sides (order : Order) (left right : Expr) (line : Nat)
  /-- The value has the type that the declaration names. -/
  | declared (name : String) (ty : Ty) (value : Expr) (line : Nat)
  /-- The value has the type that the variable was declared with. -/
  | assigned (name : String) (value : Expr) (line : Nat)
  /-- The name is not yet declared in its scope. -/
  | free (name : String) (line : Nat)

/-- What a place asks for, and the names in force there. -/
structure Requirement where
  names : Nest Binding
  rule : Rule

namespace Requirement

/-- A requirement is met. -/
def Met : Requirement → Prop
  | ⟨names, .reference name _⟩ => ∃ ty, Resolves names name (.var ty)
  | ⟨names, .operands op left right _⟩ =>
    ∃ leftTy rightTy ty, HasType names left leftTy ∧ HasType names right rightTy ∧
      Ty.arith? op leftTy rightTy = some ty
  | ⟨names, .operand _ operand _⟩ => ∃ ty, HasType names operand ty ∧ ty.isNumeric = true
  | ⟨names, .sides _ left right _⟩ =>
    ∃ leftTy rightTy, HasType names left leftTy ∧ HasType names right rightTy ∧
      leftTy.comparable rightTy = true
  | ⟨names, .declared _ ty value _⟩ => HasType names value ty
  | ⟨names, .assigned name value _⟩ =>
    ∃ ty, Resolves names name (.var ty) ∧ HasType names value ty
  | ⟨names, .free name _⟩ => IsFree names name

/-- A requirement is violated, and an error tells why. -/
inductive Violated : Requirement → CheckError → Prop where
  | unknown {names : Nest Binding} {name : String} (line : Nat)
      (none : ∀ binding, ¬ Resolves names name binding) :
      Violated ⟨names, .reference name line⟩ (.undefinedVariable name line)
  | function {names : Nest Binding} {name : String} (line : Nat)
      (resolves : Resolves names name .func) :
      Violated ⟨names, .reference name line⟩ (.notAVariable name line)
  | operands {names : Nest Binding} {op : ArithOp} {left right : Expr} {leftTy rightTy : Ty}
      (line : Nat) (first : HasType names left leftTy) (second : HasType names right rightTy)
      (refused : Ty.arith? op leftTy rightTy = none) :
      Violated ⟨names, .operands op left right line⟩
        (.invalidOperands op.symbol leftTy rightTy line)
  | operand {names : Nest Binding} {operand : Expr} {ty : Ty} (sign : Sign) (line : Nat)
      (inner : HasType names operand ty) (refused : ty.isNumeric = false) :
      Violated ⟨names, .operand sign operand line⟩ (.invalidOperand sign.symbol ty line)
  | sides {names : Nest Binding} {left right : Expr} {leftTy rightTy : Ty} (order : Order)
      (line : Nat) (first : HasType names left leftTy) (second : HasType names right rightTy)
      (refused : leftTy.comparable rightTy = false) :
      Violated ⟨names, .sides order left right line⟩
        (.invalidOperands order.symbol leftTy rightTy line)
  | declared {names : Nest Binding} {ty found : Ty} {value : Expr} (name : String) (line : Nat)
      (typed : HasType names value found) (other : found ≠ ty) :
      Violated ⟨names, .declared name ty value line⟩ (.invalidAssignment name ty found line)
  | assigned {names : Nest Binding} {name : String} {ty found : Ty} {value : Expr} (line : Nat)
      (resolves : Resolves names name (.var ty)) (typed : HasType names value found)
      (other : found ≠ ty) :
      Violated ⟨names, .assigned name value line⟩ (.invalidAssignment name ty found line)
  | taken {names : Nest Binding} {name : String} (line : Nat) (taken : ¬ IsFree names name) :
      Violated ⟨names, .free name line⟩ (.duplicateDeclaration name line)

end Requirement

/-! ### Requirements in source order -/

/-- What an expression asks for: its operands from left to right, then itself. -/
def ofExpr (names : Nest Binding) : Expr → List Requirement
  | .number _ _ | .literal _ _ => []
  | .var name line => [⟨names, .reference name line⟩]
  | .arith op left right line =>
    ofExpr names left ++ (ofExpr names right ++ [⟨names, .operands op left right line⟩])
  | .signed sign operand line => ofExpr names operand ++ [⟨names, .operand sign operand line⟩]
  | .compare order left right line =>
    ofExpr names left ++ (ofExpr names right ++ [⟨names, .sides order left right line⟩])

/-- What parameters ask for, one behind the other. -/
def ofParams (names : Nest Binding) : List Param → List Requirement
  | [] => []
  | param :: rest =>
    ⟨names, .free param.name param.line⟩ ::
      ofParams (names.declare param.name (.var param.ty)) rest

/-- The names in force behind some parameters. -/
def behindParams (names : Nest Binding) : List Param → Nest Binding
  | [] => names
  | param :: rest => behindParams (names.declare param.name (.var param.ty)) rest

/-- The names in force behind a statement. What blocks inside it declare is not
    among them. -/
def behind (names : Nest Binding) : Statement → Nest Binding
  | .assign name (some ty) _ _ => names.declare name (.var ty)
  | .function name _ _ _ => names.declare name .func
  | .assign _ none _ _ | .branch .. | .print .. | .empty => names

mutual

/-- What a statement asks for. -/
def ofStatement (names : Nest Binding) : Statement → List Requirement
  | .assign name (some ty) value line =>
    ofExpr names value ++ [⟨names, .declared name ty value line⟩, ⟨names, .free name line⟩]
  | .assign name none value line =>
    ⟨names, .reference name line⟩ :: (ofExpr names value ++ [⟨names, .assigned name value line⟩])
  | .branch condition whenTrue whenFalse _ =>
    ofExpr names condition ++ (ofBlock names.enter whenTrue ++
      match whenFalse with
      | none => []
      | some block => ofBlock names.enter block)
  | .function name params body line =>
    -- The parameters and the body share a scope, inside the one that has the name.
    let inner := (names.declare name .func).enter
    ⟨names, .free name line⟩ :: (ofParams inner params ++ ofBlock (behindParams inner params) body)
  | .print value _ => ofExpr names value
  | .empty => []

/-- What a block asks for. -/
def ofBlock (names : Nest Binding) : Block → List Requirement
  | .mk statements _ => ofStatements names statements

/-- What some statements ask for, each among the names behind those before
    it. -/
def ofStatements (names : Nest Binding) : List Statement → List Requirement
  | [] => []
  | statement :: rest => ofStatement names statement ++ ofStatements (behind names statement) rest

end

/-- What a whole program asks for, where nothing is declared around it. -/
def requirements (program : Block) : List Requirement := ofBlock .single program

/-- Of some requirements, the first that is not met is violated with an
    error. -/
inductive FirstViolated : List Requirement → CheckError → Prop where
  | here {requirement : Requirement} {e : CheckError} (later : List Requirement)
      (violated : requirement.Violated e) : FirstViolated (requirement :: later) e
  | later {requirement : Requirement} {rest : List Requirement} {e : CheckError}
      (met : requirement.Met) (violated : FirstViolated rest e) :
      FirstViolated (requirement :: rest) e

/-! ### One type, one error -/

variable {names : Nest Binding}

theorem resolves_unique {name : String} {a b : Binding} (ha : Resolves names name a)
    (hb : Resolves names name b) : a = b := by
  rw [Resolves, ha] at hb
  exact Option.some.inj hb

theorem hasType_unique {expr : Expr} {a b : Ty} (ha : HasType names expr a)
    (hb : HasType names expr b) : a = b := by
  induction ha generalizing b with
  | number value line =>
      cases hb
      rfl
  | str content line =>
      cases hb
      rfl
  | bool value line =>
      cases hb
      rfl
  | var line resolves =>
      cases hb with
      | var _ other =>
          have heq := resolves_unique resolves other
          injection heq
  | arith line _ _ result ihleft ihright =>
      cases hb with
      | arith _ first second other =>
          -- The operands have one type each, and the operator makes one of them.
          rw [← ihleft first, ← ihright second, result] at other
          exact Option.some.inj other
  | signed sign line _ _ ih =>
      cases hb with
      | signed _ _ inner _ => exact ih inner
  | compare order line _ _ _ _ _ =>
      cases hb
      rfl

theorem not_violated_of_met {requirement : Requirement} {e : CheckError}
    (hmet : requirement.Met) : ¬ requirement.Violated e := by
  intro hviolated
  cases hviolated with
  | unknown line hnone =>
      rcases hmet with ⟨ty, hresolves⟩
      exact hnone (.var ty) hresolves
  | function line hresolves =>
      rcases hmet with ⟨ty, hvar⟩
      cases resolves_unique hvar hresolves
  | operands line hfirst hsecond hrefused =>
      rcases hmet with ⟨leftTy, rightTy, ty, hleft, hright, hresult⟩
      rw [hasType_unique hleft hfirst, hasType_unique hright hsecond, hrefused] at hresult
      cases hresult
  | operand sign line hinner hrefused =>
      rcases hmet with ⟨ty, htyped, hnumeric⟩
      rw [hasType_unique htyped hinner, hrefused] at hnumeric
      cases hnumeric
  | sides order line hfirst hsecond hrefused =>
      rcases hmet with ⟨leftTy, rightTy, hleft, hright, hcomparable⟩
      rw [hasType_unique hleft hfirst, hasType_unique hright hsecond, hrefused] at hcomparable
      cases hcomparable
  | declared name line htyped hother => exact hother (hasType_unique htyped hmet)
  | assigned line hresolves htyped hother =>
      rcases hmet with ⟨ty, hvar, hvalue⟩
      cases resolves_unique hresolves hvar
      exact hother (hasType_unique htyped hvalue)
  | taken line htaken => exact htaken hmet

theorem violated_unique {requirement : Requirement} {e e' : CheckError}
    (h : requirement.Violated e) (h' : requirement.Violated e') : e = e' := by
  cases h with
  | unknown line hnone =>
      cases h' with
      | unknown => rfl
      | function _ hresolves => exact absurd hresolves (hnone .func)
  | function line hresolves =>
      cases h' with
      | unknown _ hnone => exact absurd hresolves (hnone .func)
      | function => rfl
  | operands line hfirst hsecond =>
      cases h' with
      | operands _ hfirst' hsecond' =>
          rw [hasType_unique hfirst hfirst', hasType_unique hsecond hsecond']
  | operand sign line hinner =>
      cases h' with
      | operand _ _ hinner' => rw [hasType_unique hinner hinner']
  | sides order line hfirst hsecond =>
      cases h' with
      | sides _ _ hfirst' hsecond' =>
          rw [hasType_unique hfirst hfirst', hasType_unique hsecond hsecond']
  | declared name line htyped =>
      cases h' with
      | declared _ _ htyped' => rw [hasType_unique htyped htyped']
  | assigned line hresolves htyped =>
      cases h' with
      | assigned _ hresolves' htyped' =>
          cases resolves_unique hresolves hresolves'
          rw [hasType_unique htyped htyped']
  | taken line =>
      cases h' with
      | taken => rfl

theorem not_firstViolated_of_met {requirements : List Requirement} {e : CheckError}
    (hmet : ∀ requirement ∈ requirements, requirement.Met) : ¬ FirstViolated requirements e := by
  intro h
  induction h with
  | here later violated => exact not_violated_of_met (hmet _ List.mem_cons_self) violated
  | later met violated ih => exact ih fun r hr => hmet r (List.mem_cons_of_mem _ hr)

theorem firstViolated_unique {requirements : List Requirement} {e e' : CheckError}
    (h : FirstViolated requirements e) (h' : FirstViolated requirements e') : e = e' := by
  induction h with
  | here later violated =>
      cases h' with
      | here _ violated' => exact violated_unique violated violated'
      | later met _ => exact absurd violated (not_violated_of_met met)
  | later met violated ih =>
      cases h' with
      | here _ violated' => exact absurd violated' (not_violated_of_met met)
      | later _ violated' => exact ih violated'

/-! ### Requirements one behind the other -/

theorem firstViolated_append_left {first : List Requirement} {e : CheckError}
    (h : FirstViolated first e) (second : List Requirement) : FirstViolated (first ++ second) e := by
  induction h with
  | here later violated => exact .here (later ++ second) violated
  | later met violated ih => exact .later met ih

theorem firstViolated_append_right {first second : List Requirement} {e : CheckError}
    (hmet : ∀ requirement ∈ first, requirement.Met) (h : FirstViolated second e) :
    FirstViolated (first ++ second) e := by
  induction first with
  | nil => exact h
  | cons requirement rest ih =>
      have hrest : ∀ r ∈ rest, r.Met := fun r hr => hmet r (List.mem_cons_of_mem requirement hr)
      exact .later (hmet requirement List.mem_cons_self) (ih hrest)

end Lawful

end Scriptlet
