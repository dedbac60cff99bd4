import Mathlib.Data.List.Chain
import Scriptlet.Proofs.Scope.Growth

/-!
# The Scopes of a Tree Form a Tree

A scope tree is a list of scopes with an index for a parent in each, so nothing
in its type keeps a parent from being missing, from being the scope itself, or
from leading in a circle. What keeps it is how a tree comes about. It starts
with the global scope, and all that can be asked of it is to open a scope, to
declare a symbol, and to record a scope for a block, each time with an index
that the tree has given out. `Step` is one such request and `Leads` is any
sequence of them.

Two facts are kept along every sequence. `Linked` says that every scope but the
global one has an older parent, whose level is one less. `Scope.Named` says that
a scope holds its symbols under their own names. All that concerns the way
outward follows from the first by going from a scope to its parent: the way ends
at the global scope, it is as long as the level says, and the guard that makes
the walk end never cuts it short.

## Main definitions

* `ScopeTree.Step`, `ScopeTree.Leads`: One request, and any sequence of them.
* `ScopeTree.Linked`: Every scope but the global one has an older parent.
* `Scope.Named`: The symbols of a scope are held under their own names.
* `ScopeTree.Ascends`: A list of scopes leads outward to the global scope.
* `ScopeTree.Nearest`: The first scope of a list that declares a name.
* `ScopeTree.TreeLaws`: What holds of every tree that is reached.

## Theorems

* `step_cases`: What a request can do to the scopes.
* `extends_of_leads`: Scopes and symbols stay as they are.
* `linked_of_leads`, `named_of_leads`: Both facts hold of every tree that is
  reached from the initial one.
* `ascends_ancestors`: The way outward follows the parents to its end.
* `lookup_eq_some`, `lookup_eq_none`: Looking up finds the nearest declaration.
* `scopes_form_tree`: The laws hold of every tree that is reached.
-/

namespace Scriptlet

/-- The symbols of a scope are held under their own names, and a symbol that is
    listed is also found. -/
structure Scope.Named (scope : Scope) : Prop where
  own : ∀ name symbol, scope.get? name = some symbol → symbol.name = name
  listed : ∀ symbol ∈ scope.symbols.values, scope.get? symbol.name = some symbol

theorem Scope.named_of_empty {scope : Scope} (h : scope.symbols = .empty) : scope.Named := by
  constructor
  · intro name symbol hsymbol
    rw [Scope.get?, h] at hsymbol
    cases hsymbol
  · intro symbol hsymbol
    rw [h] at hsymbol
    cases hsymbol

/-- A symbol with a free name can be added under that name. -/
theorem Scope.named_insert {scope : Scope} {symbol : Symbol} (h : scope.Named)
    (hfree : scope.get? symbol.name = none) :
    Scope.Named { scope with symbols := scope.symbols.insert symbol.name symbol } := by
  constructor
  · intro name found hfound
    by_cases hname : name = symbol.name
    · rw [Scope.get?, hname, Table.get?_insert_self] at hfound
      cases hfound
      exact hname.symm
    · rw [Scope.get?, Table.get?_insert_other _ _ hname] at hfound
      exact h.own name found hfound
  · intro found hmem
    rcases Table.mem_values_insert hmem with rfl | hold
    · exact Table.get?_insert_self _ _ _
    · have hfound := h.listed found hold
      -- The name was free, so it is not that of a symbol which was there.
      have hname : found.name ≠ symbol.name := by
        intro hc
        rw [hc, hfree] at hfound
        cases hfound
      rw [Scope.get?, Table.get?_insert_other _ _ hname]
      exact hfound

namespace ScopeTree

/-! ### Sequences of requests -/

/-- One request to a tree, with an index that the tree has given out. A symbol
    whose name is taken changes nothing. -/
inductive Step : ScopeTree → ScopeTree → Prop where
  | push {tree : ScopeTree} {parent : ScopeId} (issued : parent < tree.size) (name : String) :
      Step tree (tree.push parent name).2
  | insert {tree : ScopeTree} {id : ScopeId} (issued : id < tree.size) (symbol : Symbol) :
      Step tree ((tree.insert? id symbol).getD tree)
  | bindBlock {tree : ScopeTree} {id : ScopeId} (issued : id < tree.size) (site : Site) :
      Step tree (tree.bindBlock site id)

/-- A sequence of requests leads from one tree to another. -/
def Leads : ScopeTree → ScopeTree → Prop := Relation.ReflTransGen Step

/-- What a request can do: it opens a scope, or it declares a symbol, or it
    leaves all scopes as they are. -/
theorem step_cases {before after : ScopeTree} (h : Step before after) :
    (∃ parent name, parent < before.size ∧ after = (before.push parent name).2) ∨
      (∃ id symbol, before.insert? id symbol = some after) ∨ after.scopes = before.scopes := by
  cases h with
  | push issued name => exact Or.inl ⟨_, name, issued, rfl⟩
  | @insert id issued symbol =>
      cases hinsert : before.insert? id symbol with
      | none => exact Or.inr (Or.inr rfl)
      | some after => exact Or.inr (Or.inl ⟨id, symbol, hinsert⟩)
  | bindBlock issued site => exact Or.inr (Or.inr rfl)

theorem get?_of_scopes {before after : ScopeTree} (h : after.scopes = before.scopes)
    (id : ScopeId) : after.get? id = before.get? id := by
  rw [get?, get?, h]

theorem extends_step {before after : ScopeTree} (h : Step before after) :
    before.Extends after := by
  rcases step_cases h with ⟨parent, name, -, rfl⟩ | ⟨id, symbol, hinsert⟩ | hscopes
  · exact extends_of_grows (grows_push globalScope (fun _ => True) before parent name)
  · exact extends_of_grows (grows_insert? (fun _ => True) hinsert)
  · intro id old hold
    exact ⟨old, (get?_of_scopes hscopes id).trans hold, old.extends_refl⟩

/-- No sequence of requests changes a scope that is there, but for the names
    that it gains. -/
theorem extends_of_leads {before after : ScopeTree} (h : Leads before after) :
    before.Extends after := by
  induction h with
  | refl => exact extends_refl before
  | tail _ step ih => exact extends_trans ih (extends_step step)

/-! ### Parents and levels -/

/-- A scope has an older parent, whose level is one less. -/
def HasParent (tree : ScopeTree) (id : ScopeId) : Prop :=
  ∃ parent, tree.parent? id = some parent ∧ parent < id ∧
    tree.level id = tree.level parent + 1

/-- The global scope is on level one, and every other scope has an older
    parent. -/
structure Linked (tree : ScopeTree) : Prop where
  nonempty : globalScope < tree.size
  parentless : tree.parent? globalScope = none
  level : tree.level globalScope = 1
  inner : ∀ id, id < tree.size → id ≠ globalScope → tree.HasParent id

/-- A tree stays linked if the scopes that it gains have parents. -/
theorem linked_of_extends {before after : ScopeTree} (hext : before.Extends after)
    (h : before.Linked)
    (hnew : ∀ id, before.size ≤ id → id < after.size → after.HasParent id) : after.Linked where
  nonempty := lt_size_of_extends hext h.nonempty
  parentless := (parent?_of_extends hext h.nonempty).trans h.parentless
  level := (level_of_extends hext h.nonempty).trans h.level
  inner id hid hne := by
    by_cases hold : id < before.size
    · rcases h.inner id hold hne with ⟨parent, hparent, hlt, hlevel⟩
      refine ⟨parent, ?_, hlt, ?_⟩
      · rw [parent?_of_extends hext hold, hparent]
      · rw [level_of_extends hext hold, level_of_extends hext (Nat.lt_trans hlt hold), hlevel]
    · exact hnew id (Nat.le_of_not_lt hold) hid

theorem hasParent_push {tree : ScopeTree} {parent : ScopeId} (hparent : parent < tree.size)
    (name : String) : (tree.push parent name).2.HasParent tree.size := by
  have hext := extends_step (.push hparent name)
  refine ⟨parent, ?_, hparent, ?_⟩
  · rw [parent?, get?_push_size, Option.bind_some]
  · rw [level_of_extends hext hparent, level, get?_push_size, Option.map_some, Option.getD_some]

theorem linked_step {before after : ScopeTree} (hstep : Step before after) (h : before.Linked) :
    after.Linked := by
  refine linked_of_extends (extends_step hstep) h fun id hnew hid => ?_
  rcases step_cases hstep with ⟨parent, name, hparent, rfl⟩ | ⟨place, symbol, hinsert⟩ | hscopes
  · -- The only new scope is the last one.
    rw [size_push] at hid
    have hlast : id = before.size := by omega
    rw [hlast]
    exact hasParent_push hparent name
  · rw [size_insert? hinsert] at hid
    omega
  · rw [size, hscopes] at hid
    exact absurd hid (Nat.not_lt.mpr hnew)

theorem linked_initial : initial.Linked where
  nonempty := Nat.zero_lt_one
  parentless := rfl
  level := rfl
  inner _ hid hne := absurd (Nat.lt_one_iff.mp hid) hne

theorem linked_of_leads {tree : ScopeTree} (h : Leads initial tree) : tree.Linked := by
  induction h with
  | refl => exact linked_initial
  | tail _ step ih => exact linked_step step ih

/-! ### Symbols -/

theorem named_step {before after : ScopeTree} (hstep : Step before after)
    (h : ∀ id scope, before.get? id = some scope → scope.Named) :
    ∀ id scope, after.get? id = some scope → scope.Named := by
  intro id scope hscope
  rcases step_cases hstep with ⟨parent, name, -, rfl⟩ | ⟨place, symbol, hinsert⟩ | hscopes
  · by_cases hold : id < before.size
    · rcases lt_size_iff.mp hold with ⟨old, hget⟩
      rw [get?_push _ name hget] at hscope
      cases hscope
      exact h id scope hget
    -- Behind the old scopes there is only the new one, and it is empty.
    · have hid : id < before.size + 1 := by
        rw [← size_push]
        exact lt_size_iff.mpr ⟨scope, hscope⟩
      have hlast : id = before.size :=
        Nat.le_antisymm (Nat.le_of_lt_succ hid) (Nat.le_of_not_lt hold)
      rw [hlast, get?_push_size] at hscope
      cases hscope
      exact Scope.named_of_empty rfl
  · rcases insert?_eq_some hinsert with ⟨hfree, -, hget⟩
    rw [hget] at hscope
    rcases Option.map_eq_some_iff.mp hscope with ⟨old, hold, rfl⟩
    by_cases hplace : id = place
    · rw [if_pos hplace]
      rw [lookupLocal, ← hplace, hold, Option.bind_some] at hfree
      exact Scope.named_insert (h id old hold) hfree
    · rw [if_neg hplace]
      exact h id old hold
  · rw [get?_of_scopes hscopes] at hscope
    exact h id scope hscope

theorem named_of_leads {tree : ScopeTree} (h : Leads initial tree) :
    ∀ id scope, tree.get? id = some scope → scope.Named := by
  induction h with
  | refl =>
      intro id scope hscope
      have hid : id = 0 := Nat.lt_one_iff.mp (lt_size_iff.mpr ⟨scope, hscope⟩)
      rw [hid] at hscope
      cases hscope
      exact Scope.named_of_empty rfl
  | tail _ step ih => exact named_step step ih

/-- A name can be declared in a scope exactly if it is free there. -/
theorem isSome_insert?_iff (tree : ScopeTree) (id : ScopeId) (symbol : Symbol) :
    (tree.insert? id symbol).isSome = true ↔ tree.lookupLocal id symbol.name = none := by
  rw [insert?]
  cases tree.lookupLocal id symbol.name with
  | none => simp only [Option.isSome_some]
  | some found => simp only [Option.isSome_none, Bool.false_eq_true, reduceCtorEq]

/-! ### The way outward -/

/-- A list of scopes starts at a scope, goes from each scope to its parent, and
    ends at the global scope. -/
structure Ascends (tree : ScopeTree) (id : ScopeId) (way : List ScopeId) : Prop where
  head : way.head? = some id
  up : way.IsChain fun child parent => tree.parent? child = some parent
  last : way.getLast? = some globalScope

/-- The way outward follows the parents to the global scope, and there are as
    many scopes on it as the level says. -/
theorem ascends_ancestors {tree : ScopeTree} (h : tree.Linked) {id : ScopeId}
    (hid : id < tree.size) :
    tree.Ascends id (tree.ancestors id) ∧ (tree.ancestors id).length = tree.level id := by
  -- A parent is older than its child, so the induction is on the index.
  induction id using Nat.strongRecOn with
  | ind id ih =>
    by_cases hglobal : id = globalScope
    · rw [hglobal, ancestors, h.parentless, h.level]
      exact ⟨⟨rfl, List.isChain_singleton _, rfl⟩, rfl⟩
    · rcases h.inner id hid hglobal with ⟨parent, hparent, hlt, hlevel⟩
      rcases ih parent hlt (Nat.lt_trans hlt hid) with ⟨⟨hhead, hup, hlast⟩, hlength⟩
      rw [ancestors_of_parent? hparent hlt]
      refine ⟨⟨rfl, List.isChain_cons.mpr ⟨?_, hup⟩, ?_⟩, ?_⟩
      · intro next hnext
        rw [hhead, Option.mem_some_iff] at hnext
        rw [hparent, hnext]
      · rw [List.getLast?_cons, hlast, Option.getD_some]
      · rw [List.length_cons, hlength, hlevel]

/-! ### The nearest declaration -/

/-- The first scope of a list that declares a name, and what it declares it
    as. -/
def Nearest (tree : ScopeTree) (way : List ScopeId) (name : String) (id : ScopeId)
    (symbol : Symbol) : Prop :=
  ∃ nearer farther, way = nearer ++ id :: farther ∧ tree.lookupLocal id name = some symbol ∧
    ∀ inner ∈ nearer, tree.lookupLocal inner name = none

theorem lookup_eq_some {tree : ScopeTree} {start id : ScopeId} {name : String}
    {symbol : Symbol} :
    tree.lookup start name = some (id, symbol) ↔
      tree.Nearest (tree.ancestors start) name id symbol := by
  rw [lookup, List.findSome?_eq_some_iff]
  constructor
  · rintro ⟨nearer, found, farther, hway, hfound, hnone⟩
    rcases Option.map_eq_some_iff.mp hfound with ⟨declared, hdeclared, hpair⟩
    cases hpair
    exact ⟨nearer, farther, hway, hdeclared,
      fun inner hmem => Option.map_eq_none_iff.mp (hnone inner hmem)⟩
  · rintro ⟨nearer, farther, hway, hsymbol, hnone⟩
    refine ⟨nearer, id, farther, hway, ?_, fun inner hmem => ?_⟩
    · rw [hsymbol, Option.map_some]
    · rw [hnone inner hmem, Option.map_none]

theorem lookup_eq_none {tree : ScopeTree} {start : ScopeId} {name : String} :
    tree.lookup start name = none ↔
      ∀ id ∈ tree.ancestors start, tree.lookupLocal id name = none := by
  simp only [lookup, List.findSome?_eq_none_iff, Option.map_eq_none_iff]

/-! ### The laws -/

/-- What holds of every tree that is reached from the initial one. -/
structure TreeLaws (tree : ScopeTree) : Prop where
  /-- There is a global scope, and it is on level one. -/
  rooted : globalScope < tree.size ∧ tree.level globalScope = 1
  /-- The global scope is the only one without a parent. -/
  parentless : ∀ id, id < tree.size → (tree.parent? id = none ↔ id = globalScope)
  /-- A parent has a smaller index, and its level is one less. -/
  parent : ∀ id parent, tree.parent? id = some parent →
    parent < id ∧ tree.level id = tree.level parent + 1
  /-- The way outward follows the parents down in the index to the global scope,
      and there are as many scopes on it as the level says. -/
  ancestors : ∀ id, id < tree.size →
    tree.Ascends id (tree.ancestors id) ∧ (tree.ancestors id).Pairwise (· > ·) ∧
      (tree.ancestors id).length = tree.level id
  /-- Symbols are held under their own names. -/
  named : ∀ id scope, tree.get? id = some scope → scope.Named
  /-- A new scope gets the next index, and is empty. -/
  opened : ∀ parent name id after, parent < tree.size → tree.push parent name = (id, after) →
    id = tree.size ∧ after.size = tree.size + 1 ∧
      after.get? id = some
        { symbols := .empty, level := tree.level parent + 1, name, parent := some parent }
  /-- A symbol can be declared in a scope exactly if its name is free there, and
      then it is declared there. -/
  declared : ∀ id symbol, id < tree.size →
    ((tree.insert? id symbol).isSome = true ↔ tree.lookupLocal id symbol.name = none) ∧
      ∀ after, tree.insert? id symbol = some after →
        after.lookupLocal id symbol.name = some symbol
  /-- Looking up finds the nearest declaration. -/
  found : ∀ start name id symbol,
    tree.lookup start name = some (id, symbol) ↔
      tree.Nearest (tree.ancestors start) name id symbol
  /-- Looking up finds nothing exactly if nothing is there on the way outward. -/
  missed : ∀ start name,
    tree.lookup start name = none ↔
      ∀ id ∈ tree.ancestors start, tree.lookupLocal id name = none

/-- Every tree that is reached from the initial one by opening scopes, declaring
    symbols and recording blocks obeys the laws of a tree, and whatever follows
    leaves the index, level, name, parent and symbols of its scopes as they
    are. -/
theorem scopes_form_tree {tree : ScopeTree} (h : Leads initial tree) :
    tree.TreeLaws ∧ ∀ later, Leads tree later → tree.Extends later := by
  have hlinked := linked_of_leads h
  refine ⟨?_, fun later hlater => extends_of_leads hlater⟩
  constructor
  case rooted => exact ⟨hlinked.nonempty, hlinked.level⟩
  case parentless =>
    intro id hid
    constructor
    · intro hnone
      by_contra hne
      rcases hlinked.inner id hid hne with ⟨parent, hparent, -⟩
      rw [hnone] at hparent
      cases hparent
    · rintro rfl
      exact hlinked.parentless
  case parent =>
    intro id parent hparent
    rcases Option.bind_eq_some_iff.mp hparent with ⟨scope, hscope, -⟩
    have hne : id ≠ globalScope := by
      rintro rfl
      rw [hlinked.parentless] at hparent
      cases hparent
    rcases hlinked.inner id (lt_size_iff.mpr ⟨scope, hscope⟩) hne with ⟨outer, houter, hlaws⟩
    rw [hparent] at houter
    cases houter
    exact hlaws
  case ancestors =>
    intro id hid
    rcases ascends_ancestors hlinked hid with ⟨hascends, hlength⟩
    exact ⟨hascends, (tree.ancestors_pairwise id).1, hlength⟩
  case named => exact named_of_leads h
  case opened =>
    intro parent name id after _ hpush
    rcases Prod.ext_iff.mp hpush with ⟨rfl, rfl⟩
    exact ⟨rfl, size_push tree parent name, get?_push_size tree parent name⟩
  case declared =>
    intro id symbol hid
    refine ⟨isSome_insert?_iff tree id symbol, fun after hafter => ?_⟩
    exact (lookupLocal_insert? hid hafter symbol.name symbol).mpr (Or.inr ⟨rfl, rfl⟩)
  case found => exact fun _ _ _ _ => lookup_eq_some
  case missed => exact fun _ _ => lookup_eq_none

/-- A tree with a variable that a scope further in declares anew. One request is
    refused on the way to it, because the name is taken. -/
def shadowingTree : ScopeTree :=
  let globals := (initial.insert? 0 (.var ⟨"x", .int⟩)).getD initial
  let refused := (globals.insert? 0 (.var ⟨"x", .bool⟩)).getD globals
  let opened := ((refused.push 0 "f").2).bindBlock (.inside (.root 0) 1 .body) 1
  let locals := (opened.insert? 1 (.var ⟨"x", .str⟩)).getD opened
  (locals.push 1 "if").2

/-- From the innermost scope of `shadowingTree`, the variable that is found is
    the one of the scope around it. -/
theorem scopes_form_tree_shadowingTree :
    Leads initial shadowingTree ∧ shadowingTree.TreeLaws ∧
      shadowingTree.lookup 2 "x" = some (1, .var ⟨"x", .str⟩) ∧
      (shadowingTree.ancestors 2).length = 3 := by
  have hleads : Leads initial shadowingTree :=
    (((((Relation.ReflTransGen.single (.insert (by decide) _)).tail
      (.insert (by decide) _)).tail (.push (by decide) "f")).tail
        (.bindBlock (by decide) _)).tail (.insert (by decide) _)).tail (.push (by decide) "if")
  have hlaws := (scopes_form_tree hleads).1
  have hway : shadowingTree.ancestors 2 = [2] ++ 1 :: [0] := by decide +kernel
  refine ⟨hleads, hlaws, ?_, ?_⟩
  · refine (hlaws.found 2 "x" 1 _).mpr ⟨[2], [0], hway, rfl, ?_⟩
    intro inner hinner
    rw [List.mem_singleton.mp hinner]
    rfl
  · rw [(hlaws.ancestors 2 (by decide)).2.2]
    rfl

end ScopeTree

end Scriptlet
