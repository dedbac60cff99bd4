import Scriptlet.Proofs.Outcome
import Scriptlet.Proofs.Scope.Growth
import Scriptlet.Typing.Program

/-!
# Checking Grows the Tree

Whether a check succeeds or fails, and however deep it gets, it leaves a tree
that has only grown: in the scope it was run in, and for sites that are reached
through the statements that were checked. This holds for each step of the
checker, and chaining the steps gives it for statements, blocks and lists.

## Main definitions

* `ScopeTree.opened`: The tree after a scope was opened for a block.

## Theorems

* `Checker.typeOf_eq_ok`, `Checker.variableTy_eq_ok`: What it says that an
  expression or a variable has a type.
* `Checker.keeps_checkStatement`, `Checker.keeps_checkStatements`: Checking
  grows the tree.
-/

namespace Scriptlet

open Outcome ScopeTree

/-- The tree after a scope was opened inside `parent` for the block at a
    site. -/
def ScopeTree.opened (tree : ScopeTree) (parent : ScopeId) (name : String) (site : Site) :
    ScopeTree :=
  (tree.push parent name).2.bindBlock site tree.size

theorem ScopeTree.lt_size_opened (tree : ScopeTree) (parent : ScopeId) (name : String)
    (site : Site) : tree.size < (tree.opened parent name site).size :=
  tree.lt_size_push parent name

theorem ScopeTree.grows_opened (scope : ScopeId) {sites : Site → Prop} (tree : ScopeTree)
    (parent : ScopeId) (name : String) {site : Site} (hsite : sites site) :
    Grows scope sites tree (tree.opened parent name site) :=
  grows_trans (grows_push scope sites tree parent name) (grows_bindBlock scope _ _ hsite)

namespace Checker

theorem openScope_apply (parent : ScopeId) (name : String) (tree : ScopeTree) :
    openScope parent name tree = .ok tree.size (tree.push parent name).2 := rfl

theorem openBlock_apply (parent : ScopeId) (name : String) (site : Site) (tree : ScopeTree) :
    openBlock parent name site tree = .ok tree.size (tree.opened parent name site) := rfl

theorem looks_typeOf (scope : ScopeId) (expr : Expr) :
    Looks (fun tree => tree.typeOf scope expr) (Checker.typeOf scope expr) where
  found h := by simp only [Checker.typeOf, h]
  missed h := by simp only [Checker.typeOf, h]

theorem looks_variableTy (scope : ScopeId) (name : String) (line : Nat) :
    Looks (fun tree => tree.variableTy scope name line) (Checker.variableTy scope name line) where
  found h := by simp only [Checker.variableTy, h]
  missed h := by simp only [Checker.variableTy, h]

theorem typeOf_eq_ok {scope : ScopeId} {expr : Expr} {tree after : ScopeTree} {ty : Ty} :
    Checker.typeOf scope expr tree = .ok ty after ↔
      tree.typeOf scope expr = .ok ty ∧ after = tree := by
  unfold Checker.typeOf
  cases tree.typeOf scope expr with
  | ok found => simp only [EStateM.Result.ok.injEq, Except.ok.injEq, eq_comm (a := tree)]
  | error e => simp only [reduceCtorEq, false_and]

theorem variableTy_eq_ok {scope : ScopeId} {name : String} {line : Nat} {tree after : ScopeTree}
    {ty : Ty} :
    Checker.variableTy scope name line tree = .ok ty after ↔
      tree.variableTy scope name line = .ok ty ∧ after = tree := by
  unfold Checker.variableTy
  cases tree.variableTy scope name line with
  | ok found => simp only [EStateM.Result.ok.injEq, Except.ok.injEq, eq_comm (a := tree)]
  | error e => simp only [reduceCtorEq, false_and]

/-! ### Single steps -/

theorem keeps_seq {scope : ScopeId} {sites : Site → Prop} {α β : Type} {x : Checker α}
    {f : α → Checker β} (hx : Keeps (Grows scope sites) x)
    (hf : ∀ a, Keeps (Grows scope sites) (f a)) : Keeps (Grows scope sites) (x >>= f) :=
  keeps_bind (R := Grows scope sites) (fun _ _ _ => grows_trans) hx hf

section Steps

variable (scope : ScopeId) (sites : Site → Prop)

theorem keeps_typeOf (expr : Expr) : Keeps (Grows scope sites) (Checker.typeOf scope expr) :=
  keeps_of_looks (grows_refl scope sites) (looks_typeOf scope expr)

theorem keeps_variableTy (name : String) (line : Nat) :
    Keeps (Grows scope sites) (Checker.variableTy scope name line) :=
  keeps_of_looks (grows_refl scope sites) (looks_variableTy scope name line)

theorem keeps_declare (symbol : Symbol) (line : Nat) :
    Keeps (Grows scope sites) (declare scope symbol line) := by
  intro tree
  unfold declare
  split
  · rename_i h
    exact grows_insert? sites h
  · exact grows_refl scope sites tree

theorem keeps_declareParams (params : List Param) :
    Keeps (Grows scope sites) (declareParams scope params) := by
  induction params with
  | nil => exact fun tree => grows_refl scope sites tree
  | cons param rest ih =>
      exact keeps_seq (keeps_declare scope sites _ _) fun _ => ih

theorem keeps_ite (p : Prop) [Decidable p] {x y : Checker Unit} (hx : Keeps (Grows scope sites) x)
    (hy : Keeps (Grows scope sites) y) : Keeps (Grows scope sites) (if p then x else y) := by
  by_cases hp : p
  · rw [if_pos hp]
    exact hx
  · rw [if_neg hp]
    exact hy

end Steps

/-- Growth inside a block that was opened is growth of the tree before, for
    sites that are reached through the block. -/
theorem grows_opened_block {scope : ScopeId} {site : Site} {index : Nat} {role : BlockRole}
    {name : String} {tree after : ScopeTree}
    (h : Grows tree.size ((Site.inside site index role).From 0)
      (tree.opened scope name (.inside site index role)) after) :
    Grows scope (fun other => site.wayIn? other = some (index, role)) tree after := by
  refine grows_inner (grows_opened scope tree scope name (Site.wayIn?_inside site index role))
    tree.get?_size (grows_mono h ?_)
  rintro other ⟨i, r, _, hentry⟩
  exact Site.wayIn?_of_deeper hentry

/-- Growth inside a block that was opened, and then in the scope around it, is
    growth for sites reached through the statement that the block is a part
    of. -/
theorem keeps_opened_block {scope : ScopeId} {site : Site} {index : Nat} {role : BlockRole}
    {block : Checker Unit} {f : Unit → Checker Unit} (name : String) {tree : ScopeTree}
    (hblock : Keeps (Grows tree.size ((Site.inside site index role).From 0)) block)
    (hf : ∀ u, Keeps (Grows scope (site.Through index)) (f u)) :
    Grows scope (site.Through index) tree
      (state ((block >>= f) (tree.opened scope name (.inside site index role)))) := by
  -- However the block ends, what it did was growth through this part of the statement.
  have hthrough : ∀ after, Grows tree.size ((Site.inside site index role).From 0)
      (tree.opened scope name (.inside site index role)) after →
      Grows scope (site.Through index) tree after := by
    intro after hgrows
    exact grows_mono (grows_opened_block hgrows) fun _ hentry => ⟨role, hentry⟩
  cases hb : block (tree.opened scope name (.inside site index role)) with
  | ok u after =>
      rw [bind_of_ok hb]
      exact grows_trans (hthrough after (keeps_ok hblock hb)) (hf u after)
  | error e after =>
      rw [bind_of_error hb]
      exact hthrough after (keeps_error hblock hb)

-- By recursion over the program. A statement records only blocks that are reached through it, so
-- the statements from an index on record only those that are reached through one of them.
mutual

theorem keeps_checkStatement (scope : ScopeId) (site : Site) (index : Nat) :
    ∀ statement : Statement,
      Keeps (Grows scope (site.Through index)) (checkStatement scope site index statement)
  | .assign name (some declared) value line => by
      rw [checkStatement]
      refine keeps_seq (keeps_typeOf scope _ value) fun found => ?_
      exact keeps_ite scope _ _ (keeps_declare scope _ _ _) fun tree => grows_refl scope _ tree
  | .assign name none value line => by
      rw [checkStatement]
      refine keeps_seq (keeps_variableTy scope _ name line) fun declared => ?_
      refine keeps_seq (keeps_typeOf scope _ value) fun found => ?_
      exact keeps_ite scope _ _ (fun tree => grows_refl scope _ tree)
        fun tree => grows_refl scope _ tree
  | .branch condition whenTrue none line => by
      rw [checkStatement]
      refine keeps_seq (keeps_typeOf scope _ condition) fun ty tree => ?_
      rw [bind_of_ok (openBlock_apply scope "if" _ tree)]
      exact keeps_opened_block "if" (keeps_checkBlock tree.size _ whenTrue)
        fun _ after => grows_refl scope _ after
  | .branch condition whenTrue (some block) line => by
      rw [checkStatement]
      refine keeps_seq (keeps_typeOf scope _ condition) fun ty tree => ?_
      rw [bind_of_ok (openBlock_apply scope "if" _ tree)]
      refine keeps_opened_block "if" (keeps_checkBlock tree.size _ whenTrue) fun _ after => ?_
      -- The second block starts from the tree that the first one left.
      rw [bind_of_ok (openBlock_apply scope "else" _ after),
        ← bind_pure (checkBlock after.size (.inside site index .whenFalse) block)]
      exact keeps_opened_block "else" (keeps_checkBlock after.size _ block)
        fun _ last => grows_refl scope _ last
  | .function name params body line => by
      rw [checkStatement]
      intro tree
      rw [bind_of_ok (openScope_apply scope name tree)]
      have hopen := grows_push scope (site.Through index) tree scope name
      -- The name is declared where the function stands, all else in its own scope.
      rw [bind_apply]
      split
      · rename_i named h
        have hname := keeps_ok (keeps_declare scope (site.Through index) _ line) h
        refine grows_inner (grows_trans hopen hname) tree.get?_size ?_
        refine keeps_seq (keeps_declareParams _ _ params) (fun _ inner => ?_) named
        refine grows_mono (keeps_checkBlock tree.size _ body inner) ?_
        rintro other ⟨i, r, _, hentry⟩
        exact ⟨.body, Site.wayIn?_of_deeper hentry⟩
      · rename_i h
        exact grows_trans hopen (keeps_error (keeps_declare scope (site.Through index) _ line) h)
  | .print value line => by
      rw [checkStatement]
      exact keeps_seq (keeps_typeOf scope _ value) fun _ tree =>
        grows_refl scope _ tree
  | .empty => by
      rw [checkStatement]
      exact fun tree => grows_refl scope _ tree

theorem keeps_checkBlock (scope : ScopeId) (site : Site) :
    ∀ block : Block, Keeps (Grows scope (site.From 0)) (checkBlock scope site block)
  | .mk statements line => by
      rw [checkBlock]
      exact keeps_checkStatements scope site 0 statements

theorem keeps_checkStatements (scope : ScopeId) (site : Site) :
    ∀ (index : Nat) (statements : List Statement),
      Keeps (Grows scope (site.From index)) (checkStatements scope site index statements)
  | index, [] => by
      rw [checkStatements]
      exact fun tree => grows_refl scope _ tree
  | index, statement :: rest => by
      rw [checkStatements]
      refine keeps_seq (fun tree => ?_) fun _ tree => ?_
      · refine grows_mono (keeps_checkStatement scope site index statement tree) ?_
        rintro other ⟨role, hentry⟩
        exact ⟨index, role, Nat.le_refl index, hentry⟩
      · refine grows_mono (keeps_checkStatements scope site (index + 1) rest tree) ?_
        rintro other ⟨i, role, hle, hentry⟩
        exact ⟨i, role, Nat.le_of_succ_le hle, hentry⟩

end

end Checker

end Scriptlet
