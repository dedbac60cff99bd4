import Scriptlet.Scope.Tree

/-!
# Growth of a Scope Tree

What can happen to a scope tree while a program is checked. The checker stands
in one scope at a time: it declares names there, it opens new scopes, and it
records scopes for blocks. It never takes anything back, and it never touches a
scope that it does not stand in. `ScopeTree.Grows` says all of this at once, so
that whoever needs one part of it need not look at the checker.

Recording is the part that could go wrong. A later record for the same site
would hide an earlier one, so growth names the sites that may have got a
record. Which sites those are is a matter of where a block stands: `Site.wayIn?`
tells by which part of which statement of a block the way to a site leads. That
is a function, so different statements, and different parts of one statement,
lead to different sites.

## Main definitions

* `Site.wayIn?`: The first step from a block towards a site inside it.
* `Site.Through`, `Site.From`: The sites behind one statement, and behind all
  from one on.
* `Scope.Extends`: A scope that has only gained names.
* `ScopeTree.Extends`: A tree all of whose scopes have only gained names.
* `ScopeTree.Grows`: A tree that has only grown, in one scope and for some
  sites.

## Theorems

* `Site.wayIn?_of_deeper`: What is inside a part of a statement is reached
  through that part.
* `ScopeTree.grows_trans`, `ScopeTree.grows_inner`: Growth can be chained, and
  growth in a new scope is growth of the tree before it.
* `ScopeTree.ancestors_of_extends`: The way outward from a scope stays the same.
* `ScopeTree.ancestors_push`: A new scope leads outward through its parent.
-/

namespace Scriptlet

namespace Site

/-- By which part of which statement of the block at `outer` the way to a site
    leads, if the site is inside that block. -/
def wayIn? (outer : Site) : Site → Option (Nat × BlockRole)
  | .root _ => none
  | .inside parent index role =>
    if parent = outer then some (index, role) else wayIn? outer parent

/-- How many blocks stand around the block at a site. -/
def depth : Site → Nat
  | .root _ => 0
  | .inside parent _ _ => parent.depth + 1

/-- The sites that are reached through a statement of a block. -/
def Through (outer : Site) (index : Nat) (site : Site) : Prop :=
  ∃ role, outer.wayIn? site = some (index, role)

/-- The sites that are reached through a statement of a block or one behind
    it. -/
def From (outer : Site) (index : Nat) (site : Site) : Prop :=
  ∃ i role, index ≤ i ∧ outer.wayIn? site = some (i, role)

theorem wayIn?_inside (outer : Site) (index : Nat) (role : BlockRole) :
    wayIn? outer (.inside outer index role) = some (index, role) := by
  rw [wayIn?, if_pos rfl]

theorem depth_lt_of_wayIn? {outer site : Site} {way : Nat × BlockRole}
    (h : wayIn? outer site = some way) : outer.depth < site.depth := by
  induction site with
  | root program => cases h
  | inside parent index role ih =>
      rw [wayIn?] at h
      rw [depth]
      by_cases hp : parent = outer
      · rw [hp]
        omega
      · rw [if_neg hp] at h
        have := ih h
        omega

/-- No site is inside itself. -/
theorem wayIn?_self (site : Site) : wayIn? site site = none := by
  cases h : wayIn? site site with
  | none => rfl
  | some way => exact absurd (depth_lt_of_wayIn? h) (Nat.lt_irrefl _)

/-- What is inside a part of a statement is reached through that part. -/
theorem wayIn?_of_deeper {outer site : Site} {index : Nat} {role : BlockRole}
    {way : Nat × BlockRole} (h : wayIn? (.inside outer index role) site = some way) :
    wayIn? outer site = some (index, role) := by
  induction site with
  | root program => cases h
  | inside parent i r ih =>
      rw [wayIn?] at h ⊢
      by_cases hp : parent = .inside outer index role
      · rw [hp, wayIn?_inside, if_neg]
        -- A site is not the block that it is directly inside of.
        intro hc
        have hd := congrArg depth hc
        rw [depth] at hd
        omega
      · rw [if_neg hp] at h
        have hdepth := depth_lt_of_wayIn? h
        rw [if_neg, ih h]
        intro hc
        rw [hc, depth] at hdepth
        omega

end Site

/-- A scope that has gained names and is otherwise the same. -/
structure Scope.Extends (old new : Scope) : Prop where
  level : new.level = old.level
  name : new.name = old.name
  parent : new.parent = old.parent
  symbols : ∀ name symbol, old.get? name = some symbol → new.get? name = some symbol

theorem Scope.extends_refl (scope : Scope) : scope.Extends scope :=
  ⟨rfl, rfl, rfl, fun _ _ h => h⟩

theorem Scope.extends_trans {a b c : Scope} (hab : a.Extends b) (hbc : b.Extends c) :
    a.Extends c :=
  ⟨hbc.level.trans hab.level, hbc.name.trans hab.name, hbc.parent.trans hab.parent,
    fun name symbol h => hbc.symbols name symbol (hab.symbols name symbol h)⟩

namespace ScopeTree

/-- A tree in which every scope of another is still there, and has at most
    gained names. -/
def Extends (before after : ScopeTree) : Prop :=
  ∀ id old, before.get? id = some old → ∃ new, after.get? id = some new ∧ old.Extends new

/-- A tree that has only grown. Every scope is still there, and only `scope`
    may have gained names. Only blocks at the given sites may have got another
    record. -/
structure Grows (scope : ScopeId) (sites : Site → Prop) (before after : ScopeTree) : Prop where
  scopes : ∀ id old, before.get? id = some old →
    ∃ new, after.get? id = some new ∧ old.Extends new ∧ (id ≠ scope → new = old)
  blocks : ∀ site, ¬ sites site → after.blockScope? site = before.blockScope? site

theorem lt_size_iff {tree : ScopeTree} {id : ScopeId} :
    id < tree.size ↔ ∃ scope, tree.get? id = some scope := by
  simp only [size, get?]
  constructor
  · intro h
    exact ⟨_, List.getElem?_eq_getElem h⟩
  · rintro ⟨scope, h⟩
    exact (List.getElem?_eq_some_iff.mp h).1

theorem get?_size (tree : ScopeTree) : tree.get? tree.size = none := by
  simp only [get?, size, Nat.lt_irrefl, not_false_eq_true, getElem?_neg]

/-! ### What each operation does -/

theorem size_push (tree : ScopeTree) (parent : ScopeId) (name : String) :
    (tree.push parent name).2.size = tree.size + 1 := by
  simp only [push, size, List.length_append, List.length_singleton]

/-- The new scope has the index that was free. -/
theorem lt_size_push (tree : ScopeTree) (parent : ScopeId) (name : String) :
    tree.size < (tree.push parent name).2.size := by
  rw [size_push]
  exact Nat.lt_succ_self _

/-- A new scope changes none of those that are there. -/
theorem get?_push {tree : ScopeTree} {id : ScopeId} {scope : Scope} (parent : ScopeId)
    (name : String) (h : tree.get? id = some scope) :
    (tree.push parent name).2.get? id = some scope := by
  have hlt : id < tree.scopes.length := lt_size_iff.mpr ⟨scope, h⟩
  rw [← h]
  simp only [push, get?]
  exact List.getElem?_append_left hlt

/-- The new scope itself, which is empty. -/
theorem get?_push_size (tree : ScopeTree) (parent : ScopeId) (name : String) :
    (tree.push parent name).2.get? tree.size =
      some { symbols := .empty, level := tree.level parent + 1, name, parent := some parent } := by
  simp only [push, get?, size, List.getElem?_concat_length]

theorem grows_refl (scope : ScopeId) (sites : Site → Prop) (tree : ScopeTree) :
    Grows scope sites tree tree :=
  ⟨fun _ old h => ⟨old, h, old.extends_refl, fun _ => rfl⟩, fun _ _ => rfl⟩

theorem grows_trans {scope : ScopeId} {sites : Site → Prop} {a b c : ScopeTree}
    (hab : Grows scope sites a b) (hbc : Grows scope sites b c) : Grows scope sites a c := by
  refine ⟨?_, fun site h => (hbc.blocks site h).trans (hab.blocks site h)⟩
  intro id old hold
  rcases hab.scopes id old hold with ⟨mid, hmid, hext, hsame⟩
  rcases hbc.scopes id mid hmid with ⟨new, hnew, hext', hsame'⟩
  exact ⟨new, hnew, Scope.extends_trans hext hext',
    fun hne => (hsame' hne).trans (hsame hne)⟩

/-- Growth for some sites is growth for more of them. -/
theorem grows_mono {scope : ScopeId} {sites others : Site → Prop} {a b : ScopeTree}
    (h : Grows scope sites a b) (hsub : ∀ site, sites site → others site) :
    Grows scope others a b :=
  ⟨h.scopes, fun site hn => h.blocks site fun hs => hn (hsub site hs)⟩

/-- Growth in a scope that is new is growth of the tree that did not have it,
    wherever the checker stood before. -/
theorem grows_inner {scope child : ScopeId} {sites : Site → Prop} {a b c : ScopeTree}
    (hab : Grows scope sites a b) (hchild : a.get? child = none)
    (hbc : Grows child sites b c) : Grows scope sites a c := by
  refine ⟨?_, fun site h => (hbc.blocks site h).trans (hab.blocks site h)⟩
  intro id old hold
  -- The scope that grew is none of those that the first tree had.
  have hne : id ≠ child := by
    intro hc
    rw [hc, hchild] at hold
    cases hold
  rcases hab.scopes id old hold with ⟨mid, hmid, hext, hsame⟩
  rcases hbc.scopes id mid hmid with ⟨new, hnew, _, hsame'⟩
  rw [hsame' hne] at hnew
  exact ⟨mid, hnew, hext, hsame⟩

theorem grows_push (scope : ScopeId) (sites : Site → Prop) (tree : ScopeTree)
    (parent : ScopeId) (name : String) : Grows scope sites tree (tree.push parent name).2 :=
  ⟨fun _ old h => ⟨old, get?_push parent name h, old.extends_refl, fun _ => rfl⟩,
    fun _ _ => rfl⟩

theorem grows_bindBlock (scope : ScopeId) {sites : Site → Prop} (tree : ScopeTree) {site : Site}
    (id : ScopeId) (hsite : sites site) : Grows scope sites tree (tree.bindBlock site id) := by
  refine ⟨fun _ old h => ⟨old, h, old.extends_refl, fun _ => rfl⟩, ?_⟩
  intro other hother
  have hne : other ≠ site := by
    intro hc
    rw [hc] at hother
    exact hother hsite
  exact Table.get?_insert_other tree.blocks id hne

/-- What it takes to declare a symbol, and what becomes of the scopes. -/
theorem insert?_eq_some {tree after : ScopeTree} {id : ScopeId} {symbol : Symbol}
    (h : tree.insert? id symbol = some after) :
    tree.lookupLocal id symbol.name = none ∧ after.blocks = tree.blocks ∧
      ∀ other, after.get? other = (tree.get? other).map fun scope =>
        if other = id then { scope with symbols := scope.symbols.insert symbol.name symbol }
        else scope := by
  unfold insert? at h
  cases hl : tree.lookupLocal id symbol.name with
  | some s =>
      rw [hl] at h
      cases h
  | none =>
      rw [hl] at h
      simp only [Option.some.injEq] at h
      refine ⟨rfl, by rw [← h], fun other => ?_⟩
      rw [← h]
      -- Only the scope at the index is changed, and only in its symbols.
      simp only [get?, List.getElem?_modify, eq_comm (a := id)]
      cases tree.scopes[other]? with
      | none => rfl
      | some scope => by_cases ho : other = id <;> simp [ho]

/-- To declare a symbol opens no scope. -/
theorem size_insert? {tree after : ScopeTree} {id : ScopeId} {symbol : Symbol}
    (h : tree.insert? id symbol = some after) : after.size = tree.size := by
  unfold insert? at h
  split at h
  · cases h
  · cases h
    simp only [size, List.length_modify]

/-- The scope that a symbol is declared in gains that symbol and nothing else. -/
theorem lookupLocal_insert? {tree after : ScopeTree} {id : ScopeId} {symbol : Symbol}
    (hid : id < tree.size) (h : tree.insert? id symbol = some after) (name : String)
    (found : Symbol) :
    after.lookupLocal id name = some found ↔
      tree.lookupLocal id name = some found ∨ found.name = name ∧ found = symbol := by
  rcases insert?_eq_some h with ⟨hfree, _, hget⟩
  rcases lt_size_iff.mp hid with ⟨scope, hscope⟩
  have hnew := hget id
  rw [hscope, Option.map_some, if_pos rfl] at hnew
  rw [lookupLocal, hnew, Option.bind_some, Scope.get?]
  by_cases hname : name = symbol.name
  · subst hname
    rw [Table.get?_insert_self, hfree]
    constructor
    · intro hfound
      cases hfound
      exact Or.inr ⟨rfl, rfl⟩
    · rintro (hfound | ⟨_, rfl⟩)
      · cases hfound
      · rfl
  · rw [Table.get?_insert_other _ _ hname, lookupLocal, hscope, Option.bind_some]
    constructor
    · exact Or.inl
    · rintro (hfound | ⟨hfound, rfl⟩)
      · exact hfound
      · exact absurd hfound.symm hname

theorem grows_insert? {tree after : ScopeTree} {id : ScopeId} {symbol : Symbol}
    (sites : Site → Prop) (h : tree.insert? id symbol = some after) :
    Grows id sites tree after := by
  rcases insert?_eq_some h with ⟨hfree, hblocks, hget⟩
  refine ⟨?_, fun site _ => by rw [blockScope?, hblocks]; rfl⟩
  intro other old hold
  have hnew := hget other
  rw [hold] at hnew
  by_cases ho : other = id
  · rw [Option.map_some, if_pos ho] at hnew
    refine ⟨_, hnew, ⟨rfl, rfl, rfl, ?_⟩, fun hne => absurd ho hne⟩
    intro name s hs
    -- The name was free, so it is not the one that is looked up.
    have hname : name ≠ symbol.name := by
      intro hc
      rw [lookupLocal, ← ho, hold, ← hc, Option.bind_some, hs] at hfree
      cases hfree
    rw [Scope.get?, Table.get?_insert_other _ _ hname]
    exact hs
  · rw [Option.map_some, if_neg ho] at hnew
    exact ⟨old, hnew, old.extends_refl, fun _ => rfl⟩

/-! ### What growth keeps -/

section Kept

variable {scope : ScopeId} {sites : Site → Prop} {before after : ScopeTree}

theorem extends_of_grows (h : Grows scope sites before after) : before.Extends after := by
  intro id old hold
  rcases h.scopes id old hold with ⟨new, hnew, hext, _⟩
  exact ⟨new, hnew, hext⟩

theorem extends_refl (tree : ScopeTree) : tree.Extends tree :=
  fun _ old h => ⟨old, h, old.extends_refl⟩

theorem extends_trans {a b c : ScopeTree} (hab : a.Extends b) (hbc : b.Extends c) :
    a.Extends c := by
  intro id old hold
  rcases hab id old hold with ⟨mid, hmid, hext⟩
  rcases hbc id mid hmid with ⟨new, hnew, hext'⟩
  exact ⟨new, hnew, Scope.extends_trans hext hext'⟩

theorem lt_size_of_extends (h : before.Extends after) {id : ScopeId}
    (hid : id < before.size) : id < after.size := by
  rcases lt_size_iff.mp hid with ⟨old, hold⟩
  rcases h id old hold with ⟨new, hnew, _⟩
  exact lt_size_iff.mpr ⟨new, hnew⟩

theorem lt_size_of_grows (h : Grows scope sites before after) {id : ScopeId}
    (hid : id < before.size) : id < after.size :=
  lt_size_of_extends (extends_of_grows h) hid

theorem parent?_of_extends (h : before.Extends after) {id : ScopeId}
    (hid : id < before.size) : after.parent? id = before.parent? id := by
  rcases lt_size_iff.mp hid with ⟨old, hold⟩
  rcases h id old hold with ⟨new, hnew, hext⟩
  rw [parent?, parent?, hold, hnew, Option.bind_some, Option.bind_some, hext.parent]

theorem level_of_extends (h : before.Extends after) {id : ScopeId}
    (hid : id < before.size) : after.level id = before.level id := by
  rcases lt_size_iff.mp hid with ⟨old, hold⟩
  rcases h id old hold with ⟨new, hnew, hext⟩
  simp only [level, hold, hnew, Option.map_some, Option.getD_some, hext.level]

theorem lookupLocal_of_extends (h : before.Extends after) {id : ScopeId}
    {name : String} {symbol : Symbol} (hs : before.lookupLocal id name = some symbol) :
    after.lookupLocal id name = some symbol := by
  rw [lookupLocal] at hs ⊢
  rcases Option.bind_eq_some_iff.mp hs with ⟨old, hold, hsymbol⟩
  rcases h id old hold with ⟨new, hnew, hext⟩
  rw [hnew, Option.bind_some]
  exact hext.symbols name symbol hsymbol

/-- The way outward is the same in a tree that extends another. -/
theorem ancestors_of_extends (h : before.Extends after) {id : ScopeId}
    (hid : id < before.size) : after.ancestors id = before.ancestors id := by
  -- A parent is older than its child, so the induction is on the index.
  induction id using Nat.strongRecOn with
  | ind id ih =>
    rw [ancestors, ancestors, parent?_of_extends h hid]
    cases before.parent? id with
    | none => rfl
    | some parent =>
        simp only []
        by_cases hlt : parent < id
        · rw [if_pos hlt, if_pos hlt, ih parent hlt (Nat.lt_trans hlt hid)]
        · rw [if_neg hlt, if_neg hlt]

/-- A scope that the checker does not stand in keeps all it declares and gains
    nothing. -/
theorem get?_of_grows (h : Grows scope sites before after) {id : ScopeId} (hne : id ≠ scope)
    (hid : id < before.size) : after.get? id = before.get? id := by
  rcases lt_size_iff.mp hid with ⟨old, hold⟩
  rcases h.scopes id old hold with ⟨new, hnew, _, hsame⟩
  rw [hnew, hold, hsame hne]

end Kept

/-- The way outward from a scope goes through its parent. -/
theorem ancestors_of_parent? {tree : ScopeTree} {id parent : ScopeId}
    (h : tree.parent? id = some parent) (hlt : parent < id) :
    tree.ancestors id = id :: tree.ancestors parent := by
  rw [ancestors, h]
  simp only []
  rw [if_pos hlt]

/-- A new scope leads outward through its parent. -/
theorem ancestors_push {tree : ScopeTree} {parent : ScopeId} (name : String)
    (hparent : parent < tree.size) :
    (tree.push parent name).2.ancestors tree.size = tree.size :: tree.ancestors parent := by
  have hup : (tree.push parent name).2.parent? tree.size = some parent := by
    rw [parent?, get?_push_size, Option.bind_some]
  -- From the parent on, the way outward is the one that was there before.
  have hgrows := grows_push parent (fun _ => True) tree parent name
  rw [ancestors_of_parent? hup hparent, ancestors_of_extends (extends_of_grows hgrows) hparent]

/-- Every scope on the way outward is older than those before it. -/
theorem ancestors_pairwise (tree : ScopeTree) (id : ScopeId) :
    (tree.ancestors id).Pairwise (· > ·) ∧ ∀ other ∈ tree.ancestors id, other ≤ id := by
  induction id using Nat.strongRecOn with
  | ind id ih =>
    rw [ancestors]
    cases tree.parent? id with
    | none =>
        simp only [List.pairwise_singleton, List.mem_singleton, forall_eq, Nat.le_refl, and_self]
    | some parent =>
        simp only []
        by_cases hlt : parent < id
        · rw [if_pos hlt]
          rcases ih parent hlt with ⟨hpair, hle⟩
          refine ⟨List.pairwise_cons.mpr ⟨fun other h => ?_, hpair⟩, fun other h => ?_⟩
          · exact Nat.lt_of_le_of_lt (hle other h) hlt
          · rcases List.mem_cons.mp h with rfl | h
            · exact Nat.le_refl _
            · exact Nat.le_of_lt (Nat.lt_of_le_of_lt (hle other h) hlt)
        -- A parent that is not older ends the way, and there is one scope on it.
        · rw [if_neg hlt]
          simp only [List.pairwise_singleton, List.mem_singleton, forall_eq, Nat.le_refl, and_self]

theorem ancestors_nodup (tree : ScopeTree) (id : ScopeId) : (tree.ancestors id).Nodup :=
  (tree.ancestors_pairwise id).1.imp fun h => Nat.ne_of_gt h

end ScopeTree

end Scriptlet
