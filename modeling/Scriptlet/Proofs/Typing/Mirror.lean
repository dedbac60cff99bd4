import Scriptlet.Proofs.Scope.Plan
import Scriptlet.Proofs.Typing.Course

/-!
# The Scope Tree Mirrors the Program

A program that passes its check leaves a scope tree that can be read off the
program text. There is one scope for each block of the plan, at the index that
is its place there. It is inside the scope of the block around it, it is
labelled as the plan says, and it declares what its block declares: the
parameters, and the variables and functions of the statements that stand
directly in it.

What a scope declares mentions other scopes, because a function is declared
with the scope of its body. So the description takes the indices of the scopes
as a function of the sites, `scopeAt`, and it is in the end used with the one
that the plan gives.

The tree comes about in small steps, and each of them adds to the scope that
the checker stands in, opens scopes, or does both. `Mirrors` says of such a
step which blocks it has opened scopes for and what it has declared. Two steps
in one scope put their lists one behind the other; a step in a scope that
another step has just opened completes that scope.

## Main definitions

* `Declares`: What a statement declares in the scope of its block.
* `Opening.Holds`: What the scope of a block declares.
* `ScopeOf`: When a scope is the one that a block asks for.
* `Mirrors`: What a step of the checker has added to the tree.
* `ChecksIn`: The check of a block adds what the block asks for.

## Theorems

* `mirrors_append`, `mirrors_complete`: Steps put together.
* `mirrors_checkStatement`, `mirrors_checkBlock`: The steps of a check.
* `analyze_mirrors`: The scope tree of a program.
-/

namespace Scriptlet

open Outcome ScopeTree

/-- The site of the block around the one at a site. -/
def Site.outer? : Site → Option Site
  | .root _ => none
  | .inside parent _ _ => some parent

/-- Whether the block at a site is a branch of a conditional. -/
def Site.isBranch : Site → Bool
  | .inside _ _ .whenTrue | .inside _ _ .whenFalse => true
  | .inside _ _ .body | .root _ => false

variable {scopeAt : Site → Option ScopeId}

/-- A statement with an index in the block at a site declares a symbol in the
    scope of that block. A function is declared with the scope of its body. -/
inductive Declares (scopeAt : Site → Option ScopeId) (site : Site) (index : Nat) :
    Statement → Symbol → Prop where
  | variable (name : String) (ty : Ty) (value : Expr) (line : Nat) :
      Declares scopeAt site index (.assign name (some ty) value line) (.var ⟨name, ty⟩)
  | function (name : String) (params : List Param) (body : Block) (line : Nat) {id : ScopeId}
      (own : scopeAt (.inside site index .body) = some id) :
      Declares scopeAt site index (.function name params body line)
        (.func { name, params := params.map Param.symbol, body, site := .inside site index .body,
                 scope := id })

/-- Some statements of the block at a site, the first of which has the given
    index, declare a symbol there. -/
def DeclaredBy (scopeAt : Site → Option ScopeId) (site : Site) (index : Nat)
    (statements : List Statement) (symbol : Symbol) : Prop :=
  ∃ k statement, statements[k]? = some statement ∧
    Declares scopeAt site (index + k) statement symbol

/-- The scope of a block declares a symbol: it is a parameter, or a statement
    of the block declares it. -/
def Opening.Holds (scopeAt : Site → Option ScopeId) (opening : Opening) (symbol : Symbol) : Prop :=
  (∃ param ∈ opening.params, symbol = .var param.symbol) ∨
    DeclaredBy scopeAt opening.site 0 opening.block.statements symbol

/-- The same block before anything in it was looked at. -/
def Opening.bare (opening : Opening) : Opening := { opening with params := [], block := .mk [] 0 }

/-- The scope that a block asks for: labelled for it, inside the scope of the
    block around it, and with just what it declares. -/
structure ScopeOf (scopeAt : Site → Option ScopeId) (opening : Opening) (scope : Scope) : Prop where
  name : scope.name = opening.label
  parent : scope.parent = opening.site.outer?.bind scopeAt
  symbols : ∀ name symbol,
    scope.get? name = some symbol ↔ symbol.name = name ∧ opening.Holds scopeAt symbol

/-- What was added to a tree by a check that stood in the scope `own`: scopes
    for some blocks in their order, with records for those that are branches,
    and the symbols that were `declared` in the scope itself. -/
structure Mirrors (scopeAt : Site → Option ScopeId) (own : ScopeId) (openings : List Opening)
    (declared : Symbol → Prop) (before after : ScopeTree) : Prop where
  grows : Grows own (· ∈ openings.map Opening.site) before after
  size : after.size = before.size + openings.length
  symbols : ∀ name symbol, after.lookupLocal own name = some symbol ↔
    before.lookupLocal own name = some symbol ∨ symbol.name = name ∧ declared symbol
  scopes : ∀ (k : Nat) (opening : Opening), openings[k]? = some opening →
    ∃ scope, after.get? (before.size + k) = some scope ∧ ScopeOf scopeAt opening scope
  blocks : ∀ (k : Nat) (opening : Opening), openings[k]? = some opening →
    after.blockScope? opening.site =
      if opening.site.isBranch then some (before.size + k) else before.blockScope? opening.site

/-! ### Symbols -/

theorem declaredBy_nil (site : Site) (index : Nat) (symbol : Symbol) :
    ¬ DeclaredBy scopeAt site index [] symbol := by
  rintro ⟨k, statement, hk, _⟩
  rw [List.getElem?_nil] at hk
  cases hk

theorem declaredBy_cons {site : Site} {index : Nat} {statement : Statement}
    {rest : List Statement} {symbol : Symbol} :
    DeclaredBy scopeAt site index (statement :: rest) symbol ↔
      Declares scopeAt site index statement symbol ∨
        DeclaredBy scopeAt site (index + 1) rest symbol := by
  constructor
  · rintro ⟨k, found, hk, hdeclares⟩
    cases k with
    | zero =>
        cases hk
        exact Or.inl hdeclares
    | succ k =>
        rw [Nat.add_comm k 1, ← Nat.add_assoc] at hdeclares
        exact Or.inr ⟨k, found, hk, hdeclares⟩
  · rintro (hdeclares | ⟨k, found, hk, hdeclares⟩)
    · exact ⟨0, statement, rfl, hdeclares⟩
    · refine ⟨k + 1, found, hk, ?_⟩
      rw [Nat.add_comm k 1, ← Nat.add_assoc]
      exact hdeclares

theorem not_holds_bare (opening : Opening) (symbol : Symbol) :
    ¬ opening.bare.Holds scopeAt symbol := by
  rintro (⟨param, hparam, _⟩ | hdeclared)
  · cases hparam
  · exact declaredBy_nil _ _ symbol hdeclared

/-- A scope without symbols is the one that a bare block asks for. -/
theorem scopeOf_bare {opening : Opening} {parent : Option ScopeId} (level : Nat)
    (hparent : opening.site.outer?.bind scopeAt = parent) :
    ScopeOf scopeAt opening.bare { symbols := .empty, level, name := opening.label, parent } where
  name := rfl
  parent := hparent.symm
  symbols name symbol := by
    simp only [not_holds_bare, and_false, iff_false]
    intro hsymbol
    cases hsymbol

/-! ### Steps -/

section Steps

variable {own : ScopeId} {tree : ScopeTree}

theorem mirrors_refl (own : ScopeId) (tree : ScopeTree) :
    Mirrors scopeAt own [] (fun _ => False) tree tree where
  grows := grows_refl own _ tree
  size := rfl
  symbols name symbol := by simp only [and_false, or_false]
  scopes k opening hk := by
    rw [List.getElem?_nil] at hk
    cases hk
  blocks k opening hk := by
    rw [List.getElem?_nil] at hk
    cases hk

theorem mirrors_congr {openings : List Opening} {declared other : Symbol → Prop}
    {before after : ScopeTree} (h : Mirrors scopeAt own openings declared before after)
    (hiff : ∀ symbol, declared symbol ↔ other symbol) :
    Mirrors scopeAt own openings other before after := by
  have heq : declared = other := funext fun symbol => propext (hiff symbol)
  rw [← heq]
  exact h

/-- Two steps in one scope, for blocks at different sites. -/
theorem mirrors_append {first second : List Opening} {declared other : Symbol → Prop}
    {a b c : ScopeTree} (hown : own < a.size) (hab : Mirrors scopeAt own first declared a b)
    (hbc : Mirrors scopeAt own second other b c)
    (hsites : ((first ++ second).map Opening.site).Nodup) :
    Mirrors scopeAt own (first ++ second) (fun symbol => declared symbol ∨ other symbol) a c := by
  rw [List.map_append] at hsites
  have hapart := (List.nodup_append.mp hsites).2.2
  refine ⟨?_, ?_, ?_, ?_, ?_⟩
  · refine grows_trans (grows_mono hab.grows ?_) (grows_mono hbc.grows ?_)
    · intro site hsite
      rw [List.map_append]
      exact List.mem_append_left _ hsite
    · intro site hsite
      rw [List.map_append]
      exact List.mem_append_right _ hsite
  · rw [hbc.size, hab.size, List.length_append, Nat.add_assoc]
  · intro name symbol
    rw [hbc.symbols, hab.symbols, or_assoc, ← and_or_left]
  · intro k opening hk
    by_cases hlt : k < first.length
    · rw [List.getElem?_append_left hlt] at hk
      rcases hab.scopes k opening hk with ⟨scope, hscope, hof⟩
      refine ⟨scope, ?_, hof⟩
      -- The second step stood in another scope than the one that was opened here.
      have hne : a.size + k ≠ own :=
        Nat.ne_of_gt (Nat.lt_of_lt_of_le hown (Nat.le_add_right a.size k))
      rw [get?_of_grows hbc.grows hne (lt_size_iff.mpr ⟨scope, hscope⟩)]
      exact hscope
    · rcases Nat.exists_eq_add_of_le (Nat.le_of_not_lt hlt) with ⟨j, rfl⟩
      rw [List.getElem?_append_right (Nat.le_add_right _ j), Nat.add_sub_cancel_left] at hk
      rcases hbc.scopes j opening hk with ⟨scope, hscope, hof⟩
      rw [hab.size, Nat.add_assoc] at hscope
      exact ⟨scope, hscope, hof⟩
  · intro k opening hk
    by_cases hlt : k < first.length
    · rw [List.getElem?_append_left hlt] at hk
      rw [← hab.blocks k opening hk]
      refine hbc.grows.blocks _ fun hmem => ?_
      exact hapart _ (List.mem_map_of_mem (List.mem_of_getElem? hk)) _ hmem rfl
    · rcases Nat.exists_eq_add_of_le (Nat.le_of_not_lt hlt) with ⟨j, rfl⟩
      rw [List.getElem?_append_right (Nat.le_add_right _ j), Nat.add_sub_cancel_left] at hk
      have hmem : opening.site ∈ second.map Opening.site :=
        List.mem_map_of_mem (List.mem_of_getElem? hk)
      rw [hbc.blocks j opening hk, hab.grows.blocks _ fun hfirst => hapart _ hfirst _ hmem rfl,
        hab.size, Nat.add_assoc]

/-- A step in a scope that another step has just opened for a block. If it
    declares what the block declares, then it completes that scope, and the
    blocks that it meets come behind. -/
theorem mirrors_complete {opening : Opening} {inner : List Opening} {declared : Symbol → Prop}
    {a b c : ScopeTree} (hown : own < a.size)
    (hsites : ((opening :: inner).map Opening.site).Nodup)
    (hab : Mirrors scopeAt own [opening.bare] declared a b)
    (hbc : Mirrors scopeAt a.size inner (opening.Holds scopeAt) b c) :
    Mirrors scopeAt own (opening :: inner) declared a c := by
  have hb : b.size = a.size + 1 := hab.size
  have hfresh := (List.nodup_cons.mp hsites).1
  refine ⟨?_, ?_, ?_, ?_, ?_⟩
  · refine grows_inner (grows_mono hab.grows ?_) a.get?_size (grows_mono hbc.grows ?_)
    · intro site hmem
      exact List.mem_cons.mpr (Or.inl (List.mem_singleton.mp hmem))
    · intro site hmem
      exact List.mem_cons_of_mem _ hmem
  · rw [hbc.size, hb, List.length_cons]
    omega
  · intro name symbol
    -- The scope that the first step stood in is not the one that it opened.
    rw [lookupLocal, get?_of_grows hbc.grows (Nat.ne_of_lt hown)
      (lt_size_of_grows hab.grows hown), ← lookupLocal, hab.symbols]
  · intro k found hk
    cases k with
    | zero =>
        cases hk
        rcases hab.scopes 0 opening.bare rfl with ⟨scope, hscope, hof⟩
        rw [Nat.add_zero] at hscope ⊢
        rcases hbc.grows.scopes a.size scope hscope with ⟨new, hnew, hext, _⟩
        refine ⟨new, hnew, hext.name.trans hof.name, hext.parent.trans hof.parent, ?_⟩
        intro name symbol
        have hsymbols := hbc.symbols name symbol
        rw [lookupLocal, lookupLocal, hnew, hscope, Option.bind_some, Option.bind_some,
          hof.symbols] at hsymbols
        simp only [not_holds_bare, and_false, false_or] at hsymbols
        exact hsymbols
    | succ k =>
        rcases hbc.scopes k found hk with ⟨scope, hscope, hof⟩
        rw [hb, Nat.add_assoc, Nat.add_comm 1 k] at hscope
        exact ⟨scope, hscope, hof⟩
  · intro k found hk
    cases k with
    | zero =>
        cases hk
        rw [hbc.grows.blocks _ hfresh]
        exact hab.blocks 0 opening.bare rfl
    | succ k =>
        have hmem : found.site ∈ inner.map Opening.site :=
          List.mem_map_of_mem (List.mem_of_getElem? hk)
        have hother : found.site ∉ [opening.bare].map Opening.site := by
          intro hbare
          rw [List.mem_singleton.mp hbare] at hmem
          exact hfresh hmem
        rw [hbc.blocks k found hk, hab.grows.blocks _ hother, hb, Nat.add_assoc,
          Nat.add_comm 1 k]

/-- A declaration adds its symbol to the scope and opens nothing. -/
theorem mirrors_declare {symbol : Symbol} {line : Nat} {u : Unit} {after : ScopeTree}
    (hown : own < tree.size) (h : Checker.declare own symbol line tree = .ok u after) :
    Mirrors scopeAt own [] (· = symbol) tree after := by
  unfold Checker.declare at h
  split at h
  · rename_i extended hinsert
    cases h
    have hgrows := grows_insert? (· ∈ [].map Opening.site) hinsert
    refine ⟨hgrows, ?_, lookupLocal_insert? hown hinsert, fun k opening hk => ?_,
      fun k opening hk => ?_⟩
    · exact size_insert? hinsert
    · rw [List.getElem?_nil] at hk
      cases hk
    · rw [List.getElem?_nil] at hk
      cases hk
  · cases h

theorem mirrors_declareParams {params : List Param} {u : Unit} {tree after : ScopeTree}
    (hown : own < tree.size) (h : Checker.declareParams own params tree = .ok u after) :
    Mirrors scopeAt own [] (fun symbol => ∃ param ∈ params, symbol = .var param.symbol)
      tree after := by
  induction params generalizing tree with
  | nil =>
      cases h
      refine mirrors_congr (mirrors_refl own _) fun symbol => ?_
      simp only [List.not_mem_nil, false_and, exists_false]
  | cons param rest ih =>
      rw [Checker.declareParams] at h
      rcases bind_eq_ok.mp h with ⟨_, mid, hfirst, hrest⟩
      have hdeclare : Mirrors scopeAt own [] _ tree mid := mirrors_declare hown hfirst
      have hmid := lt_size_of_grows hdeclare.grows hown
      have hboth := mirrors_append hown hdeclare (ih hmid hrest) List.nodup_nil
      refine mirrors_congr hboth fun symbol => ?_
      simp only [List.mem_cons, exists_eq_or_imp]

/-- A scope that is opened for a block, which is recorded if it is a branch. -/
theorem mirrors_entered {opening : Opening} {after : ScopeTree} (hown : own < tree.size)
    (hparent : opening.site.outer?.bind scopeAt = some own)
    (hscopes : after.scopes = (tree.push own opening.label).2.scopes)
    (hblock : after.blockScope? opening.site =
      if opening.site.isBranch then some tree.size else tree.blockScope? opening.site)
    (hothers : ∀ site, site ≠ opening.site → after.blockScope? site = tree.blockScope? site) :
    Mirrors scopeAt own [opening.bare] (fun _ => False) tree after := by
  have hget : ∀ id, after.get? id = (tree.push own opening.label).2.get? id := by
    intro id
    rw [get?, get?, hscopes]
  refine ⟨⟨?_, ?_⟩, ?_, ?_, ?_, ?_⟩
  · intro id old hold
    exact ⟨old, (hget id).trans (get?_push own opening.label hold), old.extends_refl, fun _ => rfl⟩
  · intro site hsite
    refine hothers site ?_
    rintro rfl
    exact hsite (List.mem_singleton_self _)
  · rw [size, hscopes]
    exact List.length_append
  · intro name symbol
    rcases lt_size_iff.mp hown with ⟨scope, hscope⟩
    rw [lookupLocal, hget, get?_push own opening.label hscope, lookupLocal, hscope]
    simp only [and_false, or_false]
  · intro k found hk
    cases k with
    | zero =>
        cases hk
        exact ⟨_, (hget tree.size).trans (tree.get?_push_size own opening.label),
          scopeOf_bare _ hparent⟩
    | succ k => cases hk
  · intro k found hk
    cases k with
    | zero =>
        cases hk
        exact hblock
    | succ k => cases hk

/-- A scope that is opened for the body of a function has no record. -/
theorem mirrors_push {opening : Opening} (hown : own < tree.size)
    (hparent : opening.site.outer?.bind scopeAt = some own)
    (hbranch : opening.site.isBranch = false) :
    Mirrors scopeAt own [opening.bare] (fun _ => False) tree (tree.push own opening.label).2 := by
  refine mirrors_entered hown hparent rfl ?_ fun site hsite => rfl
  rw [hbranch]
  rfl

/-- A scope that is opened for a branch is recorded for it. -/
theorem mirrors_opened {opening : Opening} (hown : own < tree.size)
    (hparent : opening.site.outer?.bind scopeAt = some own)
    (hbranch : opening.site.isBranch = true) :
    Mirrors scopeAt own [opening.bare] (fun _ => False) tree
      (tree.opened own opening.label opening.site) := by
  refine mirrors_entered hown hparent rfl ?_ fun site hsite => ?_
  · rw [if_pos hbranch]
    exact Table.get?_insert_self tree.blocks opening.site tree.size
  · exact Table.get?_insert_other tree.blocks tree.size hsite

end Steps

/-! ### Indices -/

/-- The blocks of a list have the indices from `base` on. -/
def Assigns (scopeAt : Site → Option ScopeId) (base : Nat) (openings : List Opening) : Prop :=
  ∀ (k : Nat) (opening : Opening), openings[k]? = some opening →
    scopeAt opening.site = some (base + k)

theorem assigns_cons {base : Nat} {opening : Opening} {rest : List Opening}
    (h : Assigns scopeAt base (opening :: rest)) :
    scopeAt opening.site = some base ∧ Assigns scopeAt (base + 1) rest := by
  refine ⟨h 0 opening rfl, fun k found hk => ?_⟩
  rw [Nat.add_assoc, Nat.add_comm 1 k]
  exact h (k + 1) found hk

theorem assigns_append {base : Nat} {first second : List Opening}
    (h : Assigns scopeAt base (first ++ second)) :
    Assigns scopeAt base first ∧ Assigns scopeAt (base + first.length) second := by
  refine ⟨fun k found hk => ?_, fun k found hk => ?_⟩
  · have hlt := (List.getElem?_eq_some_iff.mp hk).1
    refine h k found ?_
    rw [List.getElem?_append_left hlt]
    exact hk
  · rw [Nat.add_assoc]
    refine h (first.length + k) found ?_
    rw [List.getElem?_append_right (Nat.le_add_right _ k), Nat.add_sub_cancel_left]
    exact hk

/-! ### Checking -/

theorem size_opened (tree : ScopeTree) (parent : ScopeId) (name : String) (site : Site) :
    (tree.opened parent name site).size = tree.size + 1 :=
  List.length_append

/-- The check of a block adds to the tree what the block asks for. -/
def ChecksIn (scopeAt : Site → Option ScopeId) (block : Block) : Prop :=
  ∀ {own : ScopeId} {site : Site} {tree after : ScopeTree}, own < tree.size →
    scopeAt site = some own → Assigns scopeAt tree.size (block.openings site) →
    checkBlock own site block tree = .ok () after →
    Mirrors scopeAt own (block.openings site) (DeclaredBy scopeAt site 0 block.statements)
      tree after

section Statements

variable {own : ScopeId} {site : Site} {index : Nat} {tree after : ScopeTree}

/-- A statement that declares nothing and opens nothing leaves the tree. -/
theorem mirrors_quiet {statement : Statement}
    (hnone : ∀ symbol, ¬ Declares scopeAt site index statement symbol) :
    Mirrors scopeAt own [] (Declares scopeAt site index statement) tree tree :=
  mirrors_congr (mirrors_refl own tree) fun symbol => (iff_false_intro (hnone symbol)).symm

/-- A branch is opened where the conditional stands, and its block is checked in
    the scope that this gave. -/
theorem mirrors_branch (opening : Opening) (hblock : ChecksIn scopeAt opening.block)
    (hown : own < tree.size) (hparams : opening.params = [])
    (hparent : opening.site.outer?.bind scopeAt = some own)
    (hbranch : opening.site.isBranch = true)
    (hat : Assigns scopeAt tree.size (opening :: opening.block.openings opening.site))
    (h : checkBlock tree.size opening.site opening.block
      (tree.opened own opening.label opening.site) = .ok () after) :
    Mirrors scopeAt own (opening :: opening.block.openings opening.site) (fun _ => False)
      tree after := by
  rcases assigns_cons hat with ⟨hathere, hatinner⟩
  rw [← size_opened tree own opening.label opening.site] at hatinner
  have hinner := hblock (tree.lt_size_opened own opening.label _) hathere hatinner h
  have hsites := nodup_opened (nodup_openings_block opening.block opening.site)
  refine mirrors_complete hown hsites (mirrors_opened hown hparent hbranch) ?_
  refine mirrors_congr hinner fun symbol => ?_
  rw [Opening.Holds, hparams]
  simp only [List.not_mem_nil, false_and, exists_false, false_or]

/-- A second branch starts from the tree that the first one left. -/
theorem mirrors_choice (first second : Opening) (hfirst : ChecksIn scopeAt first.block)
    (hsecond : ChecksIn scopeAt second.block) {mid : ScopeTree} (hown : own < tree.size)
    (hparams : first.params = [] ∧ second.params = [])
    (hparent : first.site.outer?.bind scopeAt = some own ∧
      second.site.outer?.bind scopeAt = some own)
    (hbranch : first.site.isBranch = true ∧ second.site.isBranch = true)
    (hsites : (((first :: first.block.openings first.site) ++
      second :: second.block.openings second.site).map Opening.site).Nodup)
    (hat : Assigns scopeAt tree.size ((first :: first.block.openings first.site) ++
      second :: second.block.openings second.site))
    (hmid : checkBlock tree.size first.site first.block
      (tree.opened own first.label first.site) = .ok () mid)
    (h : checkBlock mid.size second.site second.block
      (mid.opened own second.label second.site) = .ok () after) :
    Mirrors scopeAt own ((first :: first.block.openings first.site) ++
      second :: second.block.openings second.site) (fun _ => False) tree after := by
  rcases assigns_append hat with ⟨hatfirst, hatsecond⟩
  have hleft := mirrors_branch first hfirst hown hparams.1 hparent.1 hbranch.1 hatfirst hmid
  rw [← hleft.size] at hatsecond
  have hright := mirrors_branch second hsecond (lt_size_of_grows hleft.grows hown) hparams.2
    hparent.2 hbranch.2 hatsecond h
  refine mirrors_congr (mirrors_append hown hleft hright hsites) fun symbol => ?_
  rw [or_self]

/-- A function is declared where it stands, with a scope of its own for the
    parameters and the body. -/
theorem mirrors_function {name : String} {params : List Param} {body : Block} {line : Nat}
    (hblock : ChecksIn scopeAt body) (hown : own < tree.size) (hsite : scopeAt site = some own)
    (hat : Assigns scopeAt tree.size
      ((Statement.function name params body line).openings site index))
    (h : checkStatement own site index (.function name params body line) tree = .ok () after) :
    Mirrors scopeAt own ((Statement.function name params body line).openings site index)
      (Declares scopeAt site index (.function name params body line)) tree after := by
  rcases checkStatement_function h with ⟨named, inner, hnamed, hinner, hbody⟩
  simp only [Statement.openings] at hat ⊢
  rcases assigns_cons hat with ⟨hathere, hatinner⟩
  have hblocks := nodup_openings_block body (.inside site index .body)
  -- Two steps where the function stands, and two in the scope that the first of them opened.
  have hpush : Mirrors scopeAt own
      [Opening.bare ⟨.inside site index .body, name, params, body⟩] _ tree _ :=
    mirrors_push hown hsite rfl
  have hdeclare : Mirrors scopeAt own [] _ _ named :=
    mirrors_declare (lt_size_of_grows hpush.grows hown) hnamed
  have hopened := mirrors_append hown hpush hdeclare (List.pairwise_singleton _ _)
  have hknown : tree.size < named.size := by
    rw [hopened.size]
    exact Nat.lt_succ_self _
  have hparams : Mirrors scopeAt tree.size [] _ named inner := mirrors_declareParams hknown hinner
  have hsize : inner.size = tree.size + 1 := hparams.size.trans hopened.size
  rw [← hsize] at hatinner
  have hstatements := hblock (lt_size_of_grows hparams.grows hknown) hathere hatinner hbody
  have hinside := mirrors_append hknown hparams hstatements hblocks
  refine mirrors_congr (mirrors_complete hown (nodup_opened hblocks) hopened hinside) ?_
  intro symbol
  rw [false_or]
  constructor
  · rintro rfl
    exact .function name params body line hathere
  · intro hdeclares
    cases hdeclares with
    | function _ _ _ _ hid =>
        rw [hathere] at hid
        cases hid
        rfl

end Statements

-- By recursion over the program. The scope of a block is opened before those of the blocks inside,
-- so the indices of these begin behind its own.
mutual

theorem mirrors_checkStatement : ∀ (statement : Statement) {own : ScopeId} {site : Site}
    {index : Nat} {tree after : ScopeTree}, own < tree.size → scopeAt site = some own →
    Assigns scopeAt tree.size (statement.openings site index) →
    checkStatement own site index statement tree = .ok () after →
    Mirrors scopeAt own (statement.openings site index) (Declares scopeAt site index statement)
      tree after
  | .assign name (some declared) value line, own, site, index, tree, after, hown, _, _, h => by
      rw [checkStatement] at h
      rcases bind_eq_ok.mp h with ⟨found, mid, htyped, hrest⟩
      rcases Checker.typeOf_eq_ok.mp htyped with ⟨_, rfl⟩
      by_cases hfound : found = declared
      · rw [if_pos hfound] at hrest
        refine mirrors_congr (mirrors_declare hown hrest) fun symbol => ⟨?_, ?_⟩
        · rintro rfl
          exact .variable name declared value line
        · rintro ⟨⟩
          rfl
      · rw [if_neg hfound] at hrest
        cases hrest
  | .assign name none value line, own, site, index, tree, after, _, _, _, h => by
      rw [checkStatement] at h
      rcases bind_eq_ok.mp h with ⟨declared, known, hdeclared, htyped⟩
      rcases Checker.variableTy_eq_ok.mp hdeclared with ⟨_, rfl⟩
      rcases bind_eq_ok.mp htyped with ⟨found, mid, hfound, hrest⟩
      rcases Checker.typeOf_eq_ok.mp hfound with ⟨_, rfl⟩
      by_cases hsame : found = declared
      · rw [if_pos hsame] at hrest
        cases hrest
        exact mirrors_quiet fun symbol hdeclares => nomatch hdeclares
      · rw [if_neg hsame] at hrest
        cases hrest
  | .branch condition whenTrue none line, own, site, index, tree, after, hown, hsite, hat, h => by
      rcases checkStatement_branch h with ⟨ty, mid, _, hmid, hnone, _⟩
      rw [← hnone rfl] at hmid
      simp only [Statement.openings, List.append_nil] at hat ⊢
      have hbranch := mirrors_branch ⟨.inside site index .whenTrue, "if", [], whenTrue⟩
        (mirrors_checkBlock whenTrue) hown rfl hsite rfl hat hmid
      exact mirrors_congr hbranch fun symbol => ⟨False.elim, fun hdeclares => nomatch hdeclares⟩
  | .branch condition whenTrue (some block) line, own, site, index, tree, after, hown, hsite,
    hat, h => by
      rcases checkStatement_branch h with ⟨ty, mid, _, hmid, _, hsome⟩
      have hsites := nodup_openings (.branch condition whenTrue (some block) line) site index
      simp only [Statement.openings] at hat hsites ⊢
      rw [← List.cons_append] at hat hsites ⊢
      have hchoice := mirrors_choice ⟨.inside site index .whenTrue, "if", [], whenTrue⟩
        ⟨.inside site index .whenFalse, "else", [], block⟩ (mirrors_checkBlock whenTrue)
        (mirrors_checkBlock block) hown ⟨rfl, rfl⟩ ⟨hsite, hsite⟩ ⟨rfl, rfl⟩ hsites hat hmid
        (hsome block rfl)
      exact mirrors_congr hchoice fun symbol => ⟨False.elim, fun hdeclares => nomatch hdeclares⟩
  | .function name params body line, own, site, index, tree, after, hown, hsite, hat, h =>
      mirrors_function (mirrors_checkBlock body) hown hsite hat h
  | .print value line, own, site, index, tree, after, _, _, _, h => by
      rw [checkStatement] at h
      rcases bind_eq_ok.mp h with ⟨ty, mid, htyped, hrest⟩
      rcases Checker.typeOf_eq_ok.mp htyped with ⟨_, rfl⟩
      cases hrest
      exact mirrors_quiet fun symbol hdeclares => nomatch hdeclares
  | .empty, own, site, index, tree, after, _, _, _, h => by
      cases h
      exact mirrors_quiet fun symbol hdeclares => nomatch hdeclares

theorem mirrors_checkBlock : ∀ (block : Block) {own : ScopeId} {site : Site}
    {tree after : ScopeTree}, own < tree.size → scopeAt site = some own →
    Assigns scopeAt tree.size (block.openings site) →
    checkBlock own site block tree = .ok () after →
    Mirrors scopeAt own (block.openings site) (DeclaredBy scopeAt site 0 block.statements)
      tree after
  | .mk statements line, own, site, tree, after, hown, hsite, hat, h => by
      rw [checkBlock] at h
      rw [Block.openings] at hat ⊢
      exact mirrors_checkStatements statements hown hsite hat h

theorem mirrors_checkStatements : ∀ (statements : List Statement) {own : ScopeId} {site : Site}
    {index : Nat} {tree after : ScopeTree}, own < tree.size → scopeAt site = some own →
    Assigns scopeAt tree.size (openingsOfList site index statements) →
    checkStatements own site index statements tree = .ok () after →
    Mirrors scopeAt own (openingsOfList site index statements)
      (DeclaredBy scopeAt site index statements) tree after
  | [], own, site, index, tree, after, hown, hsite, hat, h => by
      cases h
      exact mirrors_congr (mirrors_refl own _) fun symbol =>
        (iff_false_intro (declaredBy_nil site index symbol)).symm
  | statement :: rest, own, site, index, tree, after, hown, hsite, hat, h => by
      rw [checkStatements] at h
      rcases bind_eq_ok.mp h with ⟨_, mid, hfirst, hrest⟩
      have hsites := nodup_openings_list (statement :: rest) site index
      rw [openingsOfList] at hat hsites ⊢
      rcases assigns_append hat with ⟨hatfirst, hatrest⟩
      have hstatement := mirrors_checkStatement statement hown hsite hatfirst hfirst
      rw [← hstatement.size] at hatrest
      have hstatements := mirrors_checkStatements rest (lt_size_of_grows hstatement.grows hown)
        hsite hatrest hrest
      exact mirrors_congr (mirrors_append hown hstatement hstatements hsites) fun symbol =>
        declaredBy_cons.symm

end

/-! ### Programs -/

/-- A scope tree is what the text of a program says. -/
structure Mirrored (program : Block) (tree : ScopeTree) : Prop where
  /-- One scope for the program, each function, each `if` and each `else`. -/
  size : tree.size = 1 + program.count .body + program.count .whenTrue + program.count .whenFalse
  /-- They are those of the blocks of the plan, in its order. -/
  length : tree.size = program.plan.length
  scopes : ∀ (id : ScopeId) (opening : Opening), program.plan[id]? = some opening →
    ∃ scope, tree.get? id = some scope ∧ ScopeOf program.scopeOf? opening scope
  /-- The branches of conditionals are recorded with their scopes, and nothing
      else is. -/
  blocks : ∀ site id, tree.blockScope? site = some id ↔
    site.isBranch = true ∧ program.scopeOf? site = some id
  /-- No scope is recorded for two branches. -/
  apart : ∀ site other id, tree.blockScope? site = some id →
    tree.blockScope? other = some id → site = other
  /-- A function is declared with the scope of its body, which has no record. -/
  functions : ∀ id name f, tree.lookupLocal id name = some (.func f) →
    f.site.isBranch = false ∧ ∃ params, params.map Param.symbol = f.params ∧
      program.plan[f.scope]? = some ⟨f.site, f.name, params, f.body⟩
  /-- No two functions are declared with the same scope. -/
  distinct : ∀ id other name name' f g, tree.lookupLocal id name = some (.func f) →
    tree.lookupLocal other name' = some (.func g) → f.scope = g.scope →
    id = other ∧ name = name'

section Program

variable {program : Block} {tree : ScopeTree}

theorem checkBlock_of_analyze (h : analyze program = .ok tree) :
    checkBlock globalScope (.root 0) program ScopeTree.initial = .ok () tree := by
  rw [analyze] at h
  cases hc : checkBlock globalScope (.root 0) program ScopeTree.initial with
  | ok u after =>
      rw [hc] at h
      cases h
      rfl
  | error e after =>
      rw [hc] at h
      cases h

/-- The plan is the order in which indices are given. -/
theorem assigns_plan (program : Block) : Assigns program.scopeOf? 0 program.plan := by
  intro k opening hk
  rw [Nat.zero_add]
  exact scopeOf?_eq_some.mpr ⟨opening, hk, rfl⟩

theorem mirrors_of_analyze (h : analyze program = .ok tree) :
    Mirrors program.scopeOf? globalScope (program.openings (.root 0))
      (DeclaredBy program.scopeOf? (.root 0) 0 program.statements) .initial tree := by
  rcases assigns_cons (assigns_plan program) with ⟨hroot, hinner⟩
  exact mirrors_checkBlock program Nat.zero_lt_one hroot hinner (checkBlock_of_analyze h)

/-- The global scope is the one that the whole program asks for. -/
theorem scopeOf_global (h : analyze program = .ok tree) :
    ∃ scope, tree.get? globalScope = some scope ∧
      ScopeOf program.scopeOf? ⟨.root 0, "global", [], program⟩ scope := by
  have hmirrors := mirrors_of_analyze h
  rcases hmirrors.grows.scopes globalScope _ rfl with ⟨scope, hscope, hext, _⟩
  refine ⟨scope, hscope, hext.name, hext.parent, fun name symbol => ?_⟩
  have hsymbols := hmirrors.symbols name symbol
  rw [lookupLocal, hscope, Option.bind_some] at hsymbols
  rw [hsymbols, Opening.Holds]
  simp only [List.not_mem_nil, false_and, exists_false, false_or, or_iff_right_iff_imp]
  intro hnone
  cases hnone

theorem scopeOf_plan (h : analyze program = .ok tree) {id : ScopeId} {opening : Opening}
    (hid : program.plan[id]? = some opening) :
    ∃ scope, tree.get? id = some scope ∧ ScopeOf program.scopeOf? opening scope := by
  cases id with
  | zero =>
      cases hid
      exact scopeOf_global h
  | succ k =>
      rcases (mirrors_of_analyze h).scopes k opening hid with ⟨scope, hscope, hof⟩
      rw [Nat.add_comm] at hscope
      exact ⟨scope, hscope, hof⟩

theorem size_of_analyze (h : analyze program = .ok tree) : tree.size = program.plan.length := by
  rw [(mirrors_of_analyze h).size, Block.plan, List.length_cons, Nat.add_comm]
  rfl

/-- Only branches have records, each with the index of its scope. -/
theorem blockScope?_of_analyze (h : analyze program = .ok tree) (site : Site) (id : ScopeId) :
    tree.blockScope? site = some id ↔
      site.isBranch = true ∧ program.scopeOf? site = some id := by
  have hmirrors := mirrors_of_analyze h
  constructor
  · intro hsite
    by_cases hmem : site ∈ (program.openings (.root 0)).map Opening.site
    · rcases List.mem_map.mp hmem with ⟨opening, hopening, rfl⟩
      rcases List.getElem?_of_mem hopening with ⟨k, hk⟩
      rw [hmirrors.blocks k opening hk] at hsite
      by_cases hbranch : opening.site.isBranch = true
      · rw [if_pos hbranch] at hsite
        cases hsite
        refine ⟨hbranch, ?_⟩
        rw [Nat.add_comm]
        exact scopeOf?_eq_some.mpr ⟨opening, hk, rfl⟩
      · rw [if_neg hbranch] at hsite
        cases hsite
    -- Before the check there were no records, and a site outside the program got none.
    · rw [hmirrors.grows.blocks site hmem] at hsite
      cases hsite
  · rintro ⟨hbranch, hid⟩
    rcases scopeOf?_eq_some.mp hid with ⟨opening, hopening, rfl⟩
    cases id with
    | zero =>
        cases hopening
        cases hbranch
    | succ k =>
        rw [hmirrors.blocks k opening hopening, if_pos hbranch, Nat.add_comm]
        rfl

/-- Where a declared function comes from: a statement that stands directly in
    a block of the plan, whose body is in the plan as well. -/
theorem origin_of_function (h : analyze program = .ok tree) {id : ScopeId} {name : String}
    {f : FunctionSymbol} (hf : tree.lookupLocal id name = some (.func f)) :
    f.name = name ∧ ∃ opening k params line, program.plan[id]? = some opening ∧
      opening.block.statements[k]? = some (.function f.name params f.body line) ∧
      params.map Param.symbol = f.params ∧ f.site = .inside opening.site k .body ∧
      program.plan[f.scope]? = some ⟨f.site, f.name, params, f.body⟩ := by
  rw [lookupLocal] at hf
  rcases Option.bind_eq_some_iff.mp hf with ⟨scope, hscope, hsymbol⟩
  have hlt : id < program.plan.length := by
    rw [← size_of_analyze h]
    exact lt_size_iff.mpr ⟨scope, hscope⟩
  have hid := List.getElem?_eq_getElem hlt
  rcases scopeOf_plan h hid with ⟨found, hfound, hof⟩
  rw [hscope] at hfound
  cases hfound
  rcases (hof.symbols name _).mp hsymbol with ⟨hname, ⟨param, _, hparam⟩ | hdeclared⟩
  · cases hparam
  · rcases hdeclared with ⟨k, statement, hk, hdeclares⟩
    rw [Nat.zero_add] at hdeclares
    cases hdeclares with
    | function label params body line hown =>
        refine ⟨hname, program.plan[id], k, params, line, hid, hk, rfl, rfl, ?_⟩
        -- The plan has one block at this site, and the body is it.
        have hbody := mem_plan (List.mem_of_getElem? hid) hk (List.mem_cons_self ..)
        rcases List.getElem?_of_mem hbody with ⟨other, hother⟩
        rcases scopeOf?_eq_some.mp hown with ⟨opening, hopening, hsite⟩
        rw [place_unique hopening hother hsite]
        exact hother

/-- The scope tree of a program that passes its check mirrors the program. -/
theorem analyze_mirrors (h : analyze program = .ok tree) : Mirrored program tree where
  size := by rw [size_of_analyze h, length_plan]
  length := size_of_analyze h
  scopes _ _ := scopeOf_plan h
  blocks := blockScope?_of_analyze h
  apart site other id hsite hother := by
    rcases scopeOf?_eq_some.mp ((blockScope?_of_analyze h site id).mp hsite).2 with
      ⟨opening, hopening, rfl⟩
    rcases scopeOf?_eq_some.mp ((blockScope?_of_analyze h other id).mp hother).2 with
      ⟨found, hfound, rfl⟩
    rw [hopening] at hfound
    cases hfound
    rfl
  functions id name f hf := by
    rcases origin_of_function h hf with ⟨_, opening, k, params, line, _, _, hparams, hsite, hplan⟩
    refine ⟨?_, params, hparams, hplan⟩
    rw [hsite]
    rfl
  distinct id other name name' f g hf hg hsame := by
    rcases origin_of_function h hf with ⟨rfl, opening, k, _, _, hid, _, _, hsite, hplan⟩
    rcases origin_of_function h hg with ⟨rfl, found, j, _, _, hother, _, _, hsite', hplan'⟩
    -- One scope means one body, and the body's site tells where its function stands.
    rw [hsame, hplan', Option.some.injEq, Opening.mk.injEq] at hplan
    rcases hplan with ⟨hsites, hnames, _, _⟩
    rw [hsite, hsite', Site.inside.injEq] at hsites
    exact ⟨place_unique hid hother hsites.1.symm, hnames.symm⟩

/-- A conditional inside a function, and a function inside that conditional. -/
def nestedProgram : Block :=
  .mk [.function "outer" [⟨"x", .int, 1⟩]
        (.mk [.branch (.compare .less (.var "x" 2) (.number 3 2) 2)
          (.mk [.function "inner" [] (.mk [.print (.var "x" 3) 3] 3) 3] 3)
          (some (.mk [.assign "x" (some .str) (.literal (.str "s") 5) 5] 5)) 2] 2) 1,
      .assign "y" (some .int) (.number 1 7) 7] 1

theorem analyze_mirrors_nestedProgram :
    ∃ tree, analyze nestedProgram = .ok tree ∧ tree.size = 5 ∧ Mirrored nestedProgram tree := by
  have hok : (analyze nestedProgram).isOk = true := by decide +kernel
  cases h : analyze nestedProgram with
  | ok tree => exact ⟨tree, rfl, (analyze_mirrors h).size, analyze_mirrors h⟩
  | error e =>
      rw [h] at hok
      cases hok

end Program

end Scriptlet
