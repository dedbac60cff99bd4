import Mathlib.Algebra.Ring.Int.Defs
import Mathlib.Logic.ExistsUnique
import Scriptlet.Run.Program

/-!
# Exact Integers

Integers have 64 bits, and a result that does not fit is refused. That is said
operator by operator, so it is not yet said of a whole expression: a result out
of range can be brought back into range by what follows, and the largest
integers can be reached on the way to small ones. Here the whole expression is
compared with its value among all integers, where nothing is ever out of range.

An expression is evaluated operands first and from left to right. That is the
order of its parts, and the first part in this order whose value does not fit
is the one that is reported. Up to there all values fit, so up to there each
value that was computed is the exact one.

## Main definitions

* `Expr.parts`: The parts of an expression, in the order of evaluation.
* `Context.Exact`: The exact value of an expression of integers.
* `Context.AllFit`, `Context.FirstMisfit`: Whether all parts have values that
  fit, and else the line of the first that has not.

## Theorems

* `exact_unique`: An expression has at most one exact value.
* `judged_eval`: Evaluation is exact, or it stops at the first misfit.
* `eval_exact_or_overflow`: The same, as conditions on both outcomes.
-/

namespace Scriptlet

/-! ### Exact values -/

/-- The integers that 64 bits hold. -/
def FitsWord (n : Int) : Prop := -2 ^ 63 ≤ n ∧ n ≤ 2 ^ 63 - 1

/-- What an operator does to integers, if it gives an integer. -/
def ArithOp.onIntegers? : ArithOp → Option (Int → Int → Int)
  | .add => some fun m n => m + n
  | .sub => some fun m n => m - n
  | .mul => some fun m n => m * n
  | .div => none

/-- What a sign does to an integer. -/
def Sign.onInteger : Sign → Int → Int
  | .plus, n => n
  | .negate, n => -n

/-- The parts of an expression: operands from left to right, and then the
    expression itself. -/
def Expr.parts : Expr → List Expr
  | .arith op left right line => left.parts ++ (right.parts ++ [.arith op left right line])
  | .signed sign operand line => operand.parts ++ [.signed sign operand line]
  | .compare order left right line =>
    left.parts ++ (right.parts ++ [.compare order left right line])
  | .number value line => [.number value line]
  | .literal value line => [.literal value line]
  | .var name line => [.var name line]

namespace Context

/-- An expression is built from integers, variables that are bound to integers,
    signs and the operators `+ - *`, and it has this value among all
    integers. -/
inductive Exact (context : Context) : Expr → Int → Prop where
  | number (value : Int64) (line : Nat) : Exact context (.number value line) value.toInt
  | var {name : String} {value : Int64} (line : Nat)
      (bound : context.get? name = some (.int value)) :
      Exact context (.var name line) value.toInt
  | signed {operand : Expr} {n : Int} (sign : Sign) (line : Nat)
      (inner : Exact context operand n) :
      Exact context (.signed sign operand line) (sign.onInteger n)
  | arith {op : ArithOp} {compute : Int → Int → Int} {left right : Expr} {m n : Int} (line : Nat)
      (whole : op.onIntegers? = some compute) (first : Exact context left m)
      (second : Exact context right n) :
      Exact context (.arith op left right line) (compute m n)

/-- The exact values of some expressions all fit. -/
def AllFit (context : Context) (parts : List Expr) : Prop :=
  ∀ part ∈ parts, ∀ n, context.Exact part n → FitsWord n

/-- The first of some expressions whose exact value does not fit stands on a
    line. -/
def FirstMisfit (context : Context) (parts : List Expr) (line : Nat) : Prop :=
  ∃ before part after n, parts = before ++ part :: after ∧ context.AllFit before ∧
    context.Exact part n ∧ ¬ FitsWord n ∧ line = part.line

variable {context : Context}

theorem exact_unique {expr : Expr} {m n : Int} (hm : context.Exact expr m)
    (hn : context.Exact expr n) : m = n := by
  induction hm generalizing n with
  | number value line =>
      cases hn
      rfl
  | var line bound =>
      cases hn with
      | var _ other =>
          rw [bound] at other
          cases other
          rfl
  | signed sign line _ ih =>
      cases hn with
      | signed _ _ inner => rw [ih inner]
  | arith line whole _ _ ihleft ihright =>
      cases hn with
      | arith _ whole' first second =>
          rw [whole] at whole'
          cases whole'
          rw [ihleft first, ihright second]

/-- Where an expression has an exact value, so has each of its parts. -/
theorem exact_of_mem_parts {expr part : Expr} {n : Int} (h : context.Exact expr n)
    (hmem : part ∈ expr.parts) : ∃ m, context.Exact part m := by
  induction h with
  | number value line =>
      rw [List.mem_singleton.mp hmem]
      exact ⟨_, .number value line⟩
  | var line bound =>
      rw [List.mem_singleton.mp hmem]
      exact ⟨_, .var line bound⟩
  | signed sign line inner ih =>
      rcases List.mem_append.mp hmem with hoperand | hself
      · exact ih hoperand
      · rw [List.mem_singleton.mp hself]
        exact ⟨_, .signed sign line inner⟩
  | arith line whole first second ihleft ihright =>
      rcases List.mem_append.mp hmem with hleft | hmem
      · exact ihleft hleft
      rcases List.mem_append.mp hmem with hright | hself
      · exact ihright hright
      · rw [List.mem_singleton.mp hself]
        exact ⟨_, .arith line whole first second⟩

/-! ### The first misfit -/

theorem allFit_append {first second : List Expr} (hfirst : context.AllFit first)
    (hsecond : context.AllFit second) : context.AllFit (first ++ second) := by
  intro part hmem
  rcases List.mem_append.mp hmem with h | h
  · exact hfirst part h
  · exact hsecond part h

theorem allFit_singleton {expr : Expr} {n : Int} (h : context.Exact expr n) (hfits : FitsWord n) :
    context.AllFit [expr] := by
  intro part hmem m hm
  rw [List.mem_singleton] at hmem
  rw [hmem] at hm
  rw [exact_unique hm h]
  exact hfits

theorem firstMisfit_append_left {first : List Expr} {line : Nat}
    (h : context.FirstMisfit first line) (second : List Expr) :
    context.FirstMisfit (first ++ second) line := by
  rcases h with ⟨before, part, after, n, rfl, hbefore⟩
  refine ⟨before, part, after ++ second, n, ?_, hbefore⟩
  rw [List.append_assoc, List.cons_append]

theorem firstMisfit_append_right {first second : List Expr} {line : Nat}
    (hfirst : context.AllFit first) (h : context.FirstMisfit second line) :
    context.FirstMisfit (first ++ second) line := by
  rcases h with ⟨before, part, after, n, rfl, hbefore, hmisfit⟩
  refine ⟨first ++ before, part, after, n, ?_, allFit_append hfirst hbefore, hmisfit⟩
  rw [List.append_assoc]

theorem not_allFit_of_firstMisfit {parts : List Expr} {line : Nat}
    (h : context.FirstMisfit parts line) : ¬ context.AllFit parts := by
  rcases h with ⟨before, part, after, n, rfl, _, hexact, hmisfit, _⟩
  intro hfit
  exact hmisfit (hfit part (List.mem_append_right before List.mem_cons_self) n hexact)

/-- A misfit does not stand where all values fit. -/
theorem length_le_of_misfit {before after before' after' : List Expr} {part part' : Expr} {n : Int}
    (hparts : before ++ part :: after = before' ++ part' :: after')
    (hbefore' : context.AllFit before') (hexact : context.Exact part n) (hmisfit : ¬ FitsWord n) :
    before'.length ≤ before.length := by
  refine Nat.le_of_not_lt fun hlt => ?_
  have hat := congrArg (fun parts => parts[before.length]?) hparts
  simp only [List.getElem?_append_right (Nat.le_refl _), Nat.sub_self, List.getElem?_cons_zero,
    List.getElem?_append_left hlt] at hat
  exact hmisfit (hbefore' part (List.mem_of_getElem? hat.symm) n hexact)

theorem firstMisfit_unique {parts : List Expr} {line line' : Nat}
    (h : context.FirstMisfit parts line) (h' : context.FirstMisfit parts line') :
    line = line' := by
  rcases h with ⟨before, part, after, n, rfl, hbefore, hexact, hmisfit, rfl⟩
  rcases h' with ⟨before', part', after', n', hparts, hbefore', hexact', hmisfit', rfl⟩
  have hlength : before.length = before'.length :=
    Nat.le_antisymm (length_le_of_misfit hparts.symm hbefore hexact' hmisfit')
      (length_le_of_misfit hparts hbefore' hexact hmisfit)
  have hsame := (List.append_inj hparts hlength).2
  rw [(List.cons.inj hsame).1]

end Context

/-! ### Operators -/

/-- An integer that fits is narrowed to itself, and no other is narrowed. -/
theorem narrow?_of_fitsWord {n : Int} (h : FitsWord n) :
    ∃ narrowed, narrow? n = some narrowed ∧ narrowed.toInt = n := by
  rcases h with ⟨hlow, hhigh⟩
  refine ⟨Int64.ofInt n, ?_, Int64.toInt_ofInt_of_le hlow (by omega)⟩
  rw [narrow?, if_pos ⟨by omega, by omega⟩]

theorem narrow?_of_not_fitsWord {n : Int} (h : ¬ FitsWord n) : narrow? n = none := by
  rw [narrow?, if_neg]
  rintro ⟨hlow, hhigh⟩
  exact h ⟨by omega, by omega⟩

theorem fitsWord_toInt (value : Int64) : FitsWord value.toInt := by
  have hlow := value.le_toInt
  have hhigh := value.toInt_lt
  exact ⟨hlow, by omega⟩

namespace Value

theorem exactInt_toInt (value : Int64) (line : Nat) :
    exactInt value.toInt line = .ok (.int value) := by
  rcases narrow?_of_fitsWord (fitsWord_toInt value) with ⟨narrowed, hnarrow, hsame⟩
  rw [exactInt, hnarrow, Int64.toInt_inj.mp hsame]

theorem sign_int (sign : Sign) (value : Int64) (line : Nat) :
    Value.sign sign (.int value) line = exactInt (sign.onInteger value.toInt) line := by
  cases sign with
  | plus => exact (exactInt_toInt value line).symm
  | negate => rfl

theorem arith_int {op : ArithOp} {compute : Int → Int → Int}
    (h : op.onIntegers? = some compute) (a b : Int64) (line : Nat) :
    arith op (.int a) (.int b) line = exactInt (compute a.toInt b.toInt) line := by
  cases op with
  | add =>
      cases h
      rfl
  | sub =>
      cases h
      rfl
  | mul =>
      cases h
      rfl
  | div => cases h

end Value

/-! ### Evaluation -/

namespace Context

/-- An outcome is the exact value where all parts fit, and else the overflow of
    the first that does not. -/
def Judged (context : Context) (parts : List Expr) (n : Int)
    (outcome : Except RuntimeError Value) : Prop :=
  (context.AllFit parts ∧ ∃ z : Int64, outcome = .ok (.int z) ∧ z.toInt = n) ∨
    ∃ line, context.FirstMisfit parts line ∧ outcome = .error (.overflow line)

variable {context : Context}

/-- A single part is judged by its own value. -/
theorem judged_exactInt {expr : Expr} {n : Int} (h : context.Exact expr n) :
    context.Judged [expr] n (Value.exactInt n expr.line) := by
  by_cases hfits : FitsWord n
  · rcases narrow?_of_fitsWord hfits with ⟨narrowed, hnarrow, hsame⟩
    refine Or.inl ⟨allFit_singleton h hfits, narrowed, ?_, hsame⟩
    rw [Value.exactInt, hnarrow]
  · refine Or.inr ⟨expr.line, ⟨[], expr, [], n, rfl, ?_, h, hfits, rfl⟩, ?_⟩
    · intro part hmem
      cases hmem
    · rw [Value.exactInt, narrow?_of_not_fitsWord hfits]

/-- What comes first is judged first, and the rest only if all of it fits. -/
theorem judged_bind {first second : List Expr} {m n : Int} {x : Except RuntimeError Value}
    {f : Value → Except RuntimeError Value} (hx : context.Judged first m x)
    (hf : ∀ z : Int64, z.toInt = m → context.Judged second n (f (.int z))) :
    context.Judged (first ++ second) n (x >>= f) := by
  rcases hx with ⟨hfirst, z, rfl, hz⟩ | ⟨line, hmisfit, rfl⟩
  · rcases hf z hz with ⟨hsecond, hvalue⟩ | ⟨line, hmisfit, herror⟩
    · exact Or.inl ⟨allFit_append hfirst hsecond, hvalue⟩
    · exact Or.inr ⟨line, firstMisfit_append_right hfirst hmisfit, herror⟩
  · exact Or.inr ⟨line, firstMisfit_append_left hmisfit second, rfl⟩

theorem judged_eval {expr : Expr} {n : Int} (h : context.Exact expr n) :
    context.Judged expr.parts n (context.eval expr) := by
  induction h with
  | number value line =>
      rw [eval, ← Value.exactInt_toInt value line]
      exact judged_exactInt (.number value line)
  | @var name value line bound =>
      have heval : context.eval (.var name line) = Value.exactInt value.toInt line := by
        rw [eval, read, bound, Value.exactInt_toInt]
      rw [heval]
      exact judged_exactInt (.var line bound)
  | signed sign line inner ih =>
      rw [eval]
      refine judged_bind ih fun z hz => ?_
      rw [Value.sign_int, hz]
      exact judged_exactInt (.signed sign line inner)
  | arith line whole first second ihleft ihright =>
      rw [eval]
      refine judged_bind ihleft fun a ha => judged_bind ihright fun b hb => ?_
      rw [Value.arith_int whole, ha, hb]
      exact judged_exactInt (.arith line whole first second)

end Context

/-- An expression of integers, whose parts have one exact value each, has an
    integer for its value if and only if the exact values of all its parts fit,
    and that integer is its exact value. It fails if and only if a part does not
    fit, with an overflow on the line of the first such part in the order of
    evaluation. -/
theorem eval_exact_or_overflow {context : Context} {expr : Expr} {n : Int}
    (h : context.Exact expr n) :
    (∀ part ∈ expr.parts, ∃! m, context.Exact part m) ∧
      ((∃ z, context.eval expr = .ok (.int z)) ↔ context.AllFit expr.parts) ∧
      (∀ value, context.eval expr = .ok value → ∃ z : Int64, value = .int z ∧ z.toInt = n) ∧
      ∀ e, context.eval expr = .error e ↔
        ∃ line, e = .overflow line ∧ context.FirstMisfit expr.parts line := by
  refine ⟨?_, ?_⟩
  · intro part hmem
    rcases Context.exact_of_mem_parts h hmem with ⟨m, hm⟩
    exact ⟨m, hm, fun other hother => Context.exact_unique hother hm⟩
  rcases Context.judged_eval h with ⟨hfit, z, hvalue, hz⟩ | ⟨line, hmisfit, herror⟩
  · rw [hvalue]
    refine ⟨⟨fun _ => hfit, fun _ => ⟨z, rfl⟩⟩, ?_, fun e => ⟨fun h => (nomatch h), ?_⟩⟩
    · intro value hok
      cases hok
      exact ⟨z, rfl, hz⟩
    · rintro ⟨line, _, hmisfit⟩
      exact absurd hfit (Context.not_allFit_of_firstMisfit hmisfit)
  · have hnot := Context.not_allFit_of_firstMisfit hmisfit
    rw [herror]
    refine ⟨⟨?_, fun hfit => absurd hfit hnot⟩, fun value h => (nomatch h), fun e => ⟨?_, ?_⟩⟩
    · rintro ⟨z, hz⟩
      cases hz
    · intro he
      cases he
      exact ⟨line, rfl, hmisfit⟩
    · rintro ⟨other, rfl, hother⟩
      rw [Context.firstMisfit_unique hmisfit hother]

/-- A context in which `a` is the largest integer. -/
def brimContext : Context :=
  (Context.start .initial .unbounded).declare "a" (.int 9223372036854775807)

/-- The expression `-a - 1`, which is the least integer. -/
def leastExpr : Expr :=
  .arith .sub (.signed .negate (.var "a" 1) 1) (.number 1 2) 2

/-- The expression `-(-a - 1) - 1`, which is the largest integer again, by way
    of one that does not fit. -/
def detourExpr : Expr := .arith .sub (.signed .negate leastExpr 3) (.number 1 4) 4

/-- The least integer is reached, and its negation is where the detour ends. -/
theorem eval_exact_or_overflow_brimContext :
    (∃ z : Int64, brimContext.eval leastExpr = .ok (.int z) ∧ z.toInt = -2 ^ 63) ∧
      brimContext.Exact detourExpr (2 ^ 63 - 1) ∧
      brimContext.eval detourExpr = .error (.overflow 3) ∧
      brimContext.FirstMisfit detourExpr.parts 3 := by
  have hbound : brimContext.get? "a" = some (.int 9223372036854775807) := by decide +kernel
  have hsub : ArithOp.sub.onIntegers? = some fun m n => m - n := rfl
  have hleast : brimContext.Exact leastExpr (-2 ^ 63) :=
    .arith 2 hsub (.signed .negate 1 (.var 1 hbound)) (.number 1 2)
  have hdetour : brimContext.Exact detourExpr (2 ^ 63 - 1) :=
    .arith 4 hsub (.signed .negate 3 hleast) (.number 1 4)
  have hvalue : brimContext.eval leastExpr = .ok (.int (-9223372036854775808)) := by
    simp only [leastExpr, Context.eval, Context.read, hbound]
    rfl
  have herror : brimContext.eval detourExpr = .error (.overflow 3) := by
    simp only [detourExpr, Context.eval, hvalue]
    rfl
  rcases eval_exact_or_overflow hleast with ⟨_, _, hexact, _⟩
  rcases hexact _ hvalue with ⟨z, hz, hsame⟩
  rcases eval_exact_or_overflow hdetour with ⟨_, _, _, hfails⟩
  rcases (hfails _).mp herror with ⟨line, hline, hmisfit⟩
  cases hline
  exact ⟨⟨z, by rw [hvalue, hz], hsame⟩, hdetour, herror, hmisfit⟩

end Scriptlet
