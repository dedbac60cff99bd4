import Scriptlet.Program
import Scriptlet.Table

/-!
# Scopes

The scopes of a program and what is declared in each. A tree starts with the
global scope and only grows: a scope is added below one that exists, and a name
is declared where it is still free. So an index stays good for the life of the
tree, and a scope's parent has a smaller index than the scope itself. That is
what makes the walk outward end.

The tree also records which scope was opened for a block. A block is told apart
by its site, so equal blocks at two places have two records.

## Main definitions

* `Symbol`: What a name is declared as.
* `Scope`: The declarations of one scope, and the scope around it.
* `ScopeTree`: All scopes of a program.
* `ScopeTree.ancestors`: The way from a scope out to the global one.
* `ScopeTree.lookup`: The nearest declaration of a name.
-/

namespace Scriptlet

/-- The index of a scope in its tree. -/
abbrev ScopeId : Type := Nat

/-- The scope that every tree starts with. -/
def globalScope : ScopeId := 0

/-- A declared variable or parameter. -/
structure VariableSymbol where
  name : String
  ty : Ty
  deriving DecidableEq, Repr

/-- A declared function: its body with the place where it stands, and the scope
    that holds the parameters and what the body declares. -/
structure FunctionSymbol where
  name : String
  params : List VariableSymbol
  body : Block
  site : Site
  scope : ScopeId

/-- What a name is declared as. -/
inductive Symbol where
  | var (declared : VariableSymbol)
  | func (declared : FunctionSymbol)

/-- The declared name. -/
def Symbol.name : Symbol → String
  | .var declared => declared.name
  | .func declared => declared.name

/-- The declarations of one scope. -/
structure Scope where
  symbols : Table String Symbol
  /-- The depth, where the global scope has depth one. -/
  level : Nat
  /-- A label: `global`, `if`, `else`, or the name of the function. -/
  name : String
  /-- The scope around this one, which only the global scope lacks. -/
  parent : Option ScopeId

namespace Scope

/-- What a name is declared as in this scope itself. -/
def get? (scope : Scope) (name : String) : Option Symbol := scope.symbols.get? name

/-- The declarations in the order of their names. -/
def symbolsByName (scope : Scope) : List Symbol :=
  scope.symbols.values.mergeSort fun a b => !decide (b.name < a.name)

end Scope

/-- All scopes of a program, and the scopes opened for its blocks. -/
structure ScopeTree where
  scopes : List Scope
  blocks : Table Site ScopeId

namespace ScopeTree

/-- A tree with nothing but an empty global scope. -/
def initial : ScopeTree :=
  { scopes := [{ symbols := .empty, level := 1, name := "global", parent := none }]
    blocks := .empty }

/-- The number of scopes. -/
def size (tree : ScopeTree) : Nat := tree.scopes.length

/-- The scope with an index, if the tree has it. -/
def get? (tree : ScopeTree) (id : ScopeId) : Option Scope := tree.scopes[id]?

/-- The depth of a scope. -/
def level (tree : ScopeTree) (id : ScopeId) : Nat := ((tree.get? id).map Scope.level).getD 0

/-- The scope around a scope. -/
def parent? (tree : ScopeTree) (id : ScopeId) : Option ScopeId :=
  (tree.get? id).bind Scope.parent

/-- Adds an empty scope inside `parent`. Its index is the number of scopes so
    far. -/
def push (tree : ScopeTree) (parent : ScopeId) (name : String) : ScopeId × ScopeTree :=
  (tree.size,
    { tree with
      scopes := tree.scopes ++
        [{ symbols := .empty, level := tree.level parent + 1, name, parent := some parent }] })

/-- What a name is declared as in a scope itself. -/
def lookupLocal (tree : ScopeTree) (id : ScopeId) (name : String) : Option Symbol :=
  (tree.get? id).bind fun scope => scope.get? name

/-- Declares a symbol in a scope, if its name is free there. -/
def insert? (tree : ScopeTree) (id : ScopeId) (symbol : Symbol) : Option ScopeTree :=
  match tree.lookupLocal id symbol.name with
  | some _ => none
  | none => some
    { tree with
      scopes := tree.scopes.modify id fun scope =>
        { scope with symbols := scope.symbols.insert symbol.name symbol } }

/-- Records the scope that was opened for the block at a site. -/
def bindBlock (tree : ScopeTree) (site : Site) (id : ScopeId) : ScopeTree :=
  { tree with blocks := tree.blocks.insert site id }

/-- The scope that was opened for the block at a site. -/
def blockScope? (tree : ScopeTree) (site : Site) : Option ScopeId := tree.blocks.get? site

/-- The scopes from `id` outward. A parent is older than its child, so the walk
    goes down in the index until it meets the global scope. -/
def ancestors (tree : ScopeTree) (id : ScopeId) : List ScopeId :=
  id :: match tree.parent? id with
    | some parent => if parent < id then tree.ancestors parent else []
    | none => []
termination_by id

/-- The nearest declaration of a name from a scope outward, with the scope that
    holds it. -/
def lookup (tree : ScopeTree) (id : ScopeId) (name : String) : Option (ScopeId × Symbol) :=
  (tree.ancestors id).findSome? fun scope =>
    (tree.lookupLocal scope name).map fun symbol => (scope, symbol)

end ScopeTree

end Scriptlet
