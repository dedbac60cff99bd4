import Scriptlet.Proofs.Typing.Growth
import Scriptlet.Proofs.Typing.Lexical

/-!
# The Checker and the Lexical Rules

The checker keeps a tree of scopes, stands somewhere in it and looks names up
along parent links. The lexical rules keep the names that are in force and
nothing else. This module shows that the two agree: what a scope of the tree
and the scopes around it declare is a nest of names, and checking in that scope
gives what the lexical rules give for that nest, be it the names afterwards or
the fault that is reported.

The tree remembers far more than a nest does, so the agreement rests on growth.
Checking a block inside changes only scopes that are not on the way outward
from where the block stands, so the names in force behind a block are those
that were in force before it.

## Main definitions

* `ScopeTree.names`: The names in force in a scope.
* `Checker.verdict`: What the outcome of a check says about names.

## Theorems

* `ScopeTree.typeOf_names`: Expressions have the same type under both.
* `ScopeTree.names_of_grows`: Growth further in leaves the names in force.
* `Checker.verdict_checkStatement`, `Checker.verdict_checkStatements`: Checking
  agrees with the lexical rules.
-/

namespace Scriptlet

open Outcome

/-- What a declared symbol lets a name stand for. -/
def Symbol.binding : Symbol → Binding
  | .var declared => .var declared.ty
  | .func _ => .func

namespace Table

variable {κ α β : Type} [DecidableEq κ]

/-- A table with each value seen through a function. -/
def mapValues (f : α → β) (table : Table κ α) : Table κ β :=
  ⟨table.entries.map fun entry => (entry.1, f entry.2)⟩

theorem get?_mapValues (f : α → β) (table : Table κ α) (key : κ) :
    (table.mapValues f).get? key = (table.get? key).map f := by
  unfold get? mapValues
  induction table.entries with
  | nil => rfl
  | cons entry rest ih =>
      rw [List.map_cons, List.lookup_cons, List.lookup_cons]
      cases key == entry.1 with
      | true => rfl
      | false => exact ih

theorem mapValues_insert (f : α → β) (table : Table κ α) (key : κ) (value : α) :
    (table.insert key value).mapValues f = (table.mapValues f).insert key (f value) := by
  simp only [insert, mapValues, List.map_cons, List.filter_map]
  rfl

end Table

namespace ScopeTree

/-- The names that a scope itself declares. -/
def layer (tree : ScopeTree) (id : ScopeId) : Table String Binding :=
  ((tree.get? id).map fun scope => scope.symbols.mapValues Symbol.binding).getD .empty

/-- The names in force in a scope: its own and those of the scopes around it. -/
def names (tree : ScopeTree) (scope : ScopeId) : Nest Binding :=
  { top := tree.layer scope, below := (tree.ancestors scope).tail.map tree.layer }

theorem ancestors_eq_cons (tree : ScopeTree) (scope : ScopeId) :
    tree.ancestors scope = scope :: (tree.ancestors scope).tail := by
  rw [ancestors, List.tail_cons]

theorem layers_names (tree : ScopeTree) (scope : ScopeId) :
    (tree.names scope).layers = (tree.ancestors scope).map tree.layer := by
  rw [ancestors_eq_cons, List.map_cons]
  rfl

theorem get?_layer (tree : ScopeTree) (id : ScopeId) (name : String) :
    (tree.layer id).get? name = (tree.lookupLocal id name).map Symbol.binding := by
  unfold layer lookupLocal Scope.get?
  cases tree.get? id with
  | none => rfl
  | some scope =>
      simp only [Option.map_some, Option.getD_some, Option.bind_some]
      exact Table.get?_mapValues Symbol.binding scope.symbols name

theorem get?_names (tree : ScopeTree) (scope : ScopeId) (name : String) :
    (tree.names scope).get? name = (tree.lookup scope name).map fun found => found.2.binding := by
  rw [Nest.get?, layers_names, List.findSome?_map, lookup, List.map_findSome?]
  congr 1
  funext id
  simp only [Function.comp_apply, get?_layer, Option.map_map]
  rfl

/-- Around the global scope there is nothing. -/
theorem get?_names_global {tree : ScopeTree} (h : tree.ancestors globalScope = [globalScope])
    (name : String) :
    (tree.names globalScope).get? name =
      (tree.lookupLocal globalScope name).map Symbol.binding := by
  rw [Nest.get?, layers_names, h, ← get?_layer]
  simp only [List.map_cons, List.map_nil, List.findSome?_cons, List.findSome?_nil]
  cases (tree.layer globalScope).get? name with
  | none => rfl
  | some binding => rfl

/-- A global name is not hidden by those that come later. -/
theorem get?_names_global_of_extends {before after : ScopeTree} (h : before.Extends after)
    (hsize : globalScope < before.size) (hglobal : before.ancestors globalScope = [globalScope])
    {name : String} {binding : Binding}
    (hname : (before.names globalScope).get? name = some binding) :
    (after.names globalScope).get? name = some binding := by
  have hafter := (ancestors_of_extends h hsize).trans hglobal
  rw [get?_names_global hglobal] at hname
  rw [get?_names_global hafter]
  rcases Option.map_eq_some_iff.mp hname with ⟨symbol, hsymbol, rfl⟩
  rw [lookupLocal_of_extends h hsymbol, Option.map_some]

theorem variableTy_names (tree : ScopeTree) (scope : ScopeId) (name : String) (line : Nat) :
    Lexical.variableTy (tree.names scope) name line = tree.variableTy scope name line := by
  rw [Lexical.variableTy, variableTy, get?_names]
  rcases tree.lookup scope name with _ | ⟨id, declared | declared⟩
  · rfl
  · rfl
  · rfl

/-- An expression has the type that the names in force give it. -/
theorem typeOf_names (tree : ScopeTree) (scope : ScopeId) (expr : Expr) :
    Lexical.typeOf (tree.names scope) expr = tree.typeOf scope expr := by
  induction expr with
  | number value line => rfl
  | literal value line => rfl
  | var name line => exact variableTy_names tree scope name line
  | arith op left right line ihl ihr =>
      rw [Lexical.typeOf, ihl, ihr]
      rfl
  | signed sign operand line ih => simp only [Lexical.typeOf, typeOf, ih]
  | compare order left right line ihl ihr => simp only [Lexical.typeOf, typeOf, ihl, ihr]

/-! ### How the names in force change -/

/-- Growth of a scope further in leaves the names in force. -/
theorem names_of_grows {scope child : ScopeId} {sites : Site → Prop} {before after : ScopeTree}
    (h : Grows child sites before after) (hscope : scope < before.size) (hlt : scope < child) :
    after.names scope = before.names scope := by
  -- The scopes on the way outward are older than the one that grew.
  have hlayer : ∀ id, id ≤ scope → after.layer id = before.layer id := by
    intro id hle
    have hne : id ≠ child := Nat.ne_of_lt (Nat.lt_of_le_of_lt hle hlt)
    rw [layer, layer, get?_of_grows h hne (Nat.lt_of_le_of_lt hle hscope)]
  unfold names
  rw [ancestors_of_extends (extends_of_grows h) hscope, hlayer scope (Nat.le_refl scope)]
  congr 1
  refine List.map_congr_left fun id hid => hlayer id ?_
  exact (before.ancestors_pairwise scope).2 id (List.mem_of_mem_tail hid)

/-- In a scope that declares nothing, the names in force are those around it. -/
theorem names_of_child {tree : ScopeTree} {scope child : ScopeId} {declared : Scope}
    (hget : tree.get? child = some declared) (hempty : declared.symbols = .empty)
    (hparent : declared.parent = some scope) (hlt : scope < child) :
    tree.names child = (tree.names scope).enter := by
  have hup : tree.parent? child = some scope := by
    rw [parent?, hget, Option.bind_some, hparent]
  have htop : tree.layer child = .empty := by
    rw [layer, hget, Option.map_some, Option.getD_some, hempty]
    rfl
  rw [Nest.enter, layers_names, names, ancestors_of_parent? hup hlt, htop, List.tail_cons]

theorem names_opened {tree : ScopeTree} {scope : ScopeId} (name : String) (site : Site)
    (hscope : scope < tree.size) :
    (tree.opened scope name site).names tree.size = (tree.names scope).enter := by
  have hget : (tree.opened scope name site).get? tree.size = _ := tree.get?_push_size scope name
  have hgrows : Grows tree.size (fun _ => True) tree (tree.opened scope name site) :=
    grows_opened tree.size tree scope name trivial
  rw [names_of_child hget rfl rfl hscope, names_of_grows hgrows hscope hscope]

/-- Declaring a symbol in a scope declares its name among those in force. -/
theorem names_insert? {tree after : ScopeTree} {scope : ScopeId} {symbol : Symbol}
    (hscope : scope < tree.size) (h : tree.insert? scope symbol = some after) :
    after.names scope = (tree.names scope).declare symbol.name symbol.binding := by
  have hgrows := grows_insert? (fun _ => True) h
  rcases insert?_eq_some h with ⟨_, _, hget⟩
  rcases lt_size_iff.mp hscope with ⟨old, hold⟩
  have htop : after.layer scope = (tree.layer scope).insert symbol.name symbol.binding := by
    rw [layer, layer, hget scope, hold, Option.map_some, if_pos rfl, Option.map_some,
      Option.map_some, Option.getD_some, Option.getD_some]
    exact Table.mapValues_insert Symbol.binding old.symbols symbol.name symbol
  unfold names Nest.declare
  rw [htop, ancestors_of_extends (extends_of_grows hgrows) hscope]
  congr 1
  -- The scopes around are older, so the declaration does not touch them.
  refine List.map_congr_left fun id hid => ?_
  have hpair := (tree.ancestors_pairwise scope).1
  rw [ancestors_eq_cons] at hpair
  have hlt : id < scope := (List.pairwise_cons.mp hpair).1 id hid
  rw [layer, layer, get?_of_grows hgrows (Nat.ne_of_lt hlt) (Nat.lt_trans hlt hscope)]

end ScopeTree

namespace Checker

open ScopeTree

variable {α β : Type}

/-- What the outcome of a check says about the names in force in a scope. -/
def verdict (scope : ScopeId) : EStateM.Result CheckError ScopeTree α →
    Except CheckError (Nest Binding)
  | .ok _ tree => .ok (tree.names scope)
  | .error e _ => .error e

theorem verdict_typeOf_bind (scope : ScopeId) (expr : Expr) (f : Ty → Checker Unit)
    (tree : ScopeTree) :
    verdict scope ((Checker.typeOf scope expr >>= f) tree) =
      (Lexical.typeOf (tree.names scope) expr >>= fun ty => verdict scope (f ty tree)) := by
  rw [typeOf_names, bind_apply, Checker.typeOf]
  cases tree.typeOf scope expr with
  | ok ty => rfl
  | error e => rfl

theorem verdict_variableTy_bind (scope : ScopeId) (name : String) (line : Nat)
    (f : Ty → Checker Unit) (tree : ScopeTree) :
    verdict scope ((Checker.variableTy scope name line >>= f) tree) =
      (Lexical.variableTy (tree.names scope) name line >>= fun ty =>
        verdict scope (f ty tree)) := by
  rw [variableTy_names, bind_apply, Checker.variableTy]
  cases tree.variableTy scope name line with
  | ok ty => rfl
  | error e => rfl

/-- A name is taken in a scope exactly if it is taken in the innermost layer of
    the names in force. -/
theorem contains_top_names (tree : ScopeTree) (scope : ScopeId) (name : String) :
    (tree.names scope).top.contains name = (tree.lookupLocal scope name).isSome := by
  rw [Table.contains, names, get?_layer, Option.isSome_map]

theorem verdict_declare {scope : ScopeId} {tree : ScopeTree} (symbol : Symbol) (line : Nat)
    (hscope : scope < tree.size) :
    verdict scope (declare scope symbol line tree) =
      Lexical.declare (tree.names scope) symbol.name symbol.binding line := by
  rw [Lexical.declare, contains_top_names]
  cases hlocal : tree.lookupLocal scope symbol.name with
  | some taken =>
      have hnone : tree.insert? scope symbol = none := by
        rw [insert?, hlocal]
      rw [declare, hnone]
      rfl
  | none =>
      have hsome : ∃ after, tree.insert? scope symbol = some after := by
        rw [insert?, hlocal]
        exact ⟨_, rfl⟩
      rcases hsome with ⟨after, hafter⟩
      rw [declare, hafter]
      simp only [verdict, names_insert? hscope hafter, Option.isSome_none, Bool.false_eq_true,
        if_false]

theorem verdict_declareParams (scope : ScopeId) (params : List Param) :
    ∀ tree : ScopeTree, scope < tree.size →
      verdict scope (declareParams scope params tree) =
        Lexical.declareParams (tree.names scope) params := by
  induction params with
  | nil => exact fun _ _ => rfl
  | cons param rest ih =>
      intro tree hscope
      rw [declareParams, Lexical.declareParams, bind_apply]
      have hfirst := verdict_declare (.var param.symbol) param.line hscope
      -- A parameter is declared as a variable is.
      change _ = Lexical.declare (tree.names scope) param.name (.var param.ty) param.line at hfirst
      rw [← hfirst]
      cases hd : declare scope (.var param.symbol) param.line tree with
      | error e after => rfl
      | ok u after =>
          have hgrows := keeps_ok (keeps_declare scope (fun _ => True) _ param.line) hd
          exact ih after (lt_size_of_grows hgrows hscope)

/-- A block that was opened is checked as the lexical rules check it further
    in, and the names in force around it stay. -/
theorem verdict_opened_block {scope : ScopeId} {site : Site} {index : Nat} {role : BlockRole}
    {tree : ScopeTree} (name : String) (block : Block) (hscope : scope < tree.size)
    (hblock : ∀ inner : ScopeTree, tree.size < inner.size →
      verdict tree.size (checkBlock tree.size (.inside site index role) block inner) =
        Lexical.checkBlock (inner.names tree.size) block) {f : Unit → Checker Unit}
    {rest : Except CheckError (Nest Binding)}
    (hrest : ∀ after : ScopeTree, scope < after.size → after.names scope = tree.names scope →
      verdict scope (f () after) = rest) :
    verdict scope ((checkBlock tree.size (.inside site index role) block >>= f)
        (tree.opened scope name (.inside site index role))) =
      (Lexical.checkBlock (tree.names scope).enter block >>= fun _ => rest) := by
  have hinner := hblock _ (tree.lt_size_opened scope name (.inside site index role))
  have hopened : Grows tree.size (fun _ => True) tree
      (tree.opened scope name (.inside site index role)) :=
    grows_opened tree.size tree scope name trivial
  rw [names_opened name _ hscope] at hinner
  rw [← hinner, bind_apply]
  cases hc : checkBlock tree.size (.inside site index role) block
      (tree.opened scope name (.inside site index role)) with
  | error e after => rfl
  | ok u after =>
      have hchecked := keeps_ok (keeps_checkBlock tree.size _ block) hc
      have hgrows : Grows tree.size (fun _ => True) tree after :=
        grows_trans hopened (grows_mono hchecked fun _ _ => trivial)
      have hnames := names_of_grows hgrows hscope hscope
      exact hrest after (lt_size_of_grows hgrows hscope) hnames

/-- The parameters and the body of a function are checked in its scope as the
    lexical rules check them further in, and the names in force around it
    stay. -/
theorem verdict_body {scope child : ScopeId} {site : Site} {tree : ScopeTree} {declared : Scope}
    (params : List Param) (body : Block) (hget : tree.get? child = some declared)
    (hempty : declared.symbols = .empty) (hparent : declared.parent = some scope)
    (hlt : scope < child)
    (hbody : ∀ inner : ScopeTree, child < inner.size →
      verdict child (checkBlock child site body inner) =
        Lexical.checkBlock (inner.names child) body) :
    verdict scope ((declareParams child params >>= fun _ => checkBlock child site body) tree) =
      (Lexical.declareParams (tree.names scope).enter params >>= fun inner =>
        Lexical.checkBlock inner body >>= fun _ => .ok (tree.names scope)) := by
  have hchild : child < tree.size := lt_size_iff.mpr ⟨declared, hget⟩
  -- The scope is still empty, so what is in force in it is what is around it.
  have hparams := verdict_declareParams child params tree hchild
  rw [names_of_child hget hempty hparent hlt] at hparams
  rw [← hparams, bind_apply]
  cases hp : declareParams child params tree with
  | error e after => rfl
  | ok u inner =>
      have hgrows := keeps_ok (keeps_declareParams child (fun _ => True) params) hp
      have hchecked := hbody inner (lt_size_of_grows hgrows hchild)
      change verdict scope (checkBlock child site body inner) =
        (Lexical.checkBlock (inner.names child) body >>= fun _ => .ok (tree.names scope))
      rw [← hchecked]
      cases hb : checkBlock child site body inner with
      | error e after => rfl
      | ok u after =>
          have hinner := keeps_ok (keeps_checkBlock child site body) hb
          have hall : Grows child (fun _ => True) tree after :=
            grows_trans hgrows (grows_mono hinner fun _ _ => trivial)
          rw [verdict, names_of_grows hall (Nat.lt_trans hlt hchild) hlt]
          rfl

/-- Once its scope is there, a function is checked as the lexical rules check
    it: the name goes to the scope around, all else to the new one. -/
theorem verdict_function {scope : ScopeId} {site : Site} {tree : ScopeTree} {symbol : Symbol}
    (label : String) (params : List Param) (body : Block) (line : Nat)
    (hsymbol : symbol.binding = .func) (hscope : scope < tree.size)
    (hbody : ∀ inner : ScopeTree, tree.size < inner.size →
      verdict tree.size (checkBlock tree.size site body inner) =
        Lexical.checkBlock (inner.names tree.size) body) :
    verdict scope ((declare scope symbol line >>= fun _ =>
        declareParams tree.size params >>= fun _ => checkBlock tree.size site body)
        (tree.push scope label).2) =
      (Lexical.declare (tree.names scope) symbol.name .func line >>= fun outer =>
        Lexical.declareParams outer.enter params >>= fun inner =>
          Lexical.checkBlock inner body >>= fun _ => .ok outer) := by
  have hpush := grows_push tree.size (fun _ => True) tree scope label
  have hname := verdict_declare symbol line (lt_size_of_grows hpush hscope)
  rw [names_of_grows hpush hscope hscope, hsymbol] at hname
  rw [← hname, bind_apply]
  cases hd : declare scope symbol line (tree.push scope label).2 with
  | error e after => rfl
  | ok u named =>
      -- The name went to the scope around, so the new scope is as it was opened.
      have hnamed := keeps_ok (keeps_declare scope (fun _ => True) _ line) hd
      have hnew := get?_of_grows hnamed (Nat.ne_of_gt hscope) (tree.lt_size_push scope label)
      rw [get?_push_size] at hnew
      exact verdict_body params body hnew rfl rfl hscope hbody

-- By recursion over the program. The checker hands one tree through all of it, so what is said of
-- a statement is said for every tree that has the scope it stands in.
mutual

theorem verdict_checkStatement (scope : ScopeId) (site : Site) (index : Nat) :
    ∀ (statement : Statement) (tree : ScopeTree), scope < tree.size →
      verdict scope (checkStatement scope site index statement tree) =
        Lexical.checkStatement (tree.names scope) statement
  | .assign name (some declared) value line, tree, hscope => by
      rw [checkStatement, Lexical.checkStatement, verdict_typeOf_bind]
      congr 1
      funext found
      by_cases hfound : found = declared
      · rw [if_pos hfound, if_pos hfound]
        exact verdict_declare (.var ⟨name, declared⟩) line hscope
      · rw [if_neg hfound, if_neg hfound]
        rfl
  | .assign name none value line, tree, hscope => by
      rw [checkStatement, Lexical.checkStatement, verdict_variableTy_bind]
      congr 1
      funext declared
      rw [verdict_typeOf_bind]
      congr 1
      funext found
      by_cases hfound : found = declared
      · rw [if_pos hfound, if_pos hfound]
        rfl
      · rw [if_neg hfound, if_neg hfound]
        rfl
  | .branch condition whenTrue none line, tree, hscope => by
      rw [checkStatement, Lexical.checkStatement, verdict_typeOf_bind]
      congr 1
      funext ty
      rw [bind_of_ok (openBlock_apply scope "if" _ tree)]
      refine verdict_opened_block "if" whenTrue hscope
        (verdict_checkBlock tree.size _ whenTrue) fun after _ hnames => ?_
      rw [pure_apply, verdict, hnames]
  | .branch condition whenTrue (some block) line, tree, hscope => by
      rw [checkStatement, Lexical.checkStatement, verdict_typeOf_bind]
      congr 1
      funext ty
      rw [bind_of_ok (openBlock_apply scope "if" _ tree)]
      refine verdict_opened_block "if" whenTrue hscope
        (verdict_checkBlock tree.size _ whenTrue) fun after hafter hnames => ?_
      -- The second block sees the names that the first one saw.
      rw [bind_of_ok (openBlock_apply scope "else" _ after), ← hnames]
      rw [← bind_pure (checkBlock after.size (.inside site index .whenFalse) block)]
      refine verdict_opened_block "else" block hafter
        (verdict_checkBlock after.size _ block) fun last _ hlast => ?_
      rw [pure_apply, verdict, hlast]
  | .function name params body line, tree, hscope => by
      rw [checkStatement, Lexical.checkStatement, bind_of_ok (openScope_apply scope name tree)]
      exact verdict_function name params body line rfl hscope
        (verdict_checkBlock tree.size (.inside site index .body) body)
  | .print value line, tree, hscope => by
      rw [checkStatement, Lexical.checkStatement, verdict_typeOf_bind]
      rfl
  | .empty, tree, hscope => by
      rw [checkStatement, Lexical.checkStatement]
      rfl

theorem verdict_checkBlock (scope : ScopeId) (site : Site) :
    ∀ (block : Block) (tree : ScopeTree), scope < tree.size →
      verdict scope (checkBlock scope site block tree) =
        Lexical.checkBlock (tree.names scope) block
  | .mk statements line, tree, hscope => by
      rw [checkBlock, Lexical.checkBlock]
      exact verdict_checkStatements scope site 0 statements tree hscope

theorem verdict_checkStatements (scope : ScopeId) (site : Site) :
    ∀ (index : Nat) (statements : List Statement) (tree : ScopeTree), scope < tree.size →
      verdict scope (checkStatements scope site index statements tree) =
        Lexical.checkStatements (tree.names scope) statements
  | index, [], tree, hscope => by
      rw [checkStatements, Lexical.checkStatements]
      rfl
  | index, statement :: rest, tree, hscope => by
      rw [checkStatements, Lexical.checkStatements, bind_apply,
        ← verdict_checkStatement scope site index statement tree hscope]
      cases hs : checkStatement scope site index statement tree with
      | error e after => rfl
      | ok u after =>
          have hgrows := keeps_ok (keeps_checkStatement scope site index statement) hs
          exact verdict_checkStatements scope site (index + 1) rest after
            (lt_size_of_grows hgrows hscope)

end

end Checker

end Scriptlet
