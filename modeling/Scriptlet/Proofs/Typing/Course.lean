import Scriptlet.Proofs.Typing.Growth

/-!
# The Course of a Check

Where the checker stands, and in which tree, when it comes to a statement. A
check is one walk, so each place of a program is come to once, in one scope and
with one tree. The tree there is not yet the tree of the whole program, which
has more scopes and more names; but what the walk still does is growth, so all
that was recorded for the blocks of a statement is still there at the end.

This is what a run relies on. It has only the final tree, and it asks it for
the scope of a block by the block's site. `Checked` says that the answer is the
scope the checker opened when it came there.

## Main definitions

* `Place`: A statement of a program with those behind it, or the end of a
  block.
* `CheckReaches`: The checker comes to a place in a scope with a tree.
* `Settled`: A tree to which nothing is added any more inside a block.
* `Checked`: From a place on, a check passes and leads to the final tree.

## Theorems

* `checkReaches_unique`: A place is come to in one scope with one tree.
* `checked_statement`, `checked_nth`, `checked_whenTrue`, `checked_whenFalse`,
  `checked_body`: What is checked behind a place that is checked.
-/

namespace Scriptlet

open Outcome ScopeTree

/-- A point between the statements of a block: where the block stands, the
    index of the next statement, and the statements from there on. -/
structure Place where
  site : Site
  index : Nat
  rest : List Statement

/-- Checking a program, the checker comes to a place in a scope with the tree
    it has built up to then. -/
inductive CheckReaches (program : Block) : Place → ScopeId → ScopeTree → Prop where
  | start : CheckReaches program ⟨.root 0, 0, program.statements⟩ globalScope .initial
  | next {site : Site} {index : Nat} {statement : Statement} {rest : List Statement}
      {scope : ScopeId} {tree after : ScopeTree}
      (here : CheckReaches program ⟨site, index, statement :: rest⟩ scope tree)
      (passed : checkStatement scope site index statement tree = .ok () after) :
      CheckReaches program ⟨site, index + 1, rest⟩ scope after
  | whenTrue {site : Site} {index : Nat} {condition : Expr} {block : Block}
      {other : Option Block} {line : Nat} {rest : List Statement} {scope : ScopeId}
      {tree : ScopeTree} {ty : Ty}
      (here : CheckReaches program
        ⟨site, index, .branch condition block other line :: rest⟩ scope tree)
      (typed : tree.typeOf scope condition = .ok ty) :
      CheckReaches program ⟨.inside site index .whenTrue, 0, block.statements⟩ tree.size
        (tree.opened scope "if" (.inside site index .whenTrue))
  | whenFalse {site : Site} {index : Nat} {condition : Expr} {whenTrue block : Block}
      {line : Nat} {rest : List Statement} {scope : ScopeId} {tree mid : ScopeTree}
      (here : CheckReaches program
        ⟨site, index, .branch condition whenTrue (some block) line :: rest⟩ scope tree)
      (passed : checkBlock tree.size (.inside site index .whenTrue) whenTrue
        (tree.opened scope "if" (.inside site index .whenTrue)) = .ok () mid) :
      CheckReaches program ⟨.inside site index .whenFalse, 0, block.statements⟩ mid.size
        (mid.opened scope "else" (.inside site index .whenFalse))
  | body {site : Site} {index : Nat} {name : String} {params : List Param} {body : Block}
      {line : Nat} {rest : List Statement} {scope : ScopeId} {tree named inner : ScopeTree}
      (here : CheckReaches program
        ⟨site, index, .function name params body line :: rest⟩ scope tree)
      (declared : Checker.declare scope
        (.func { name, params := params.map Param.symbol, body,
                 site := .inside site index .body, scope := tree.size })
        line (tree.push scope name).2 = .ok () named)
      (passed : Checker.declareParams tree.size params named = .ok () inner) :
      CheckReaches program ⟨.inside site index .body, 0, body.statements⟩ tree.size inner

/-- The checker comes to a place only once: where it stands decides what is
    left to check, the scope and the tree. -/
theorem checkReaches_unique {program : Block} {here there : Place} {scope scope' : ScopeId}
    {tree tree' : ScopeTree} (h : CheckReaches program here scope tree)
    (h' : CheckReaches program there scope' tree') (hsite : here.site = there.site)
    (hindex : here.index = there.index) :
    here = there ∧ scope = scope' ∧ tree = tree' := by
  -- Site and index tell how a place was come to, so both derivations end with the same rule.
  induction h generalizing there scope' tree' with
  | start =>
      cases h' with
      | start => exact ⟨rfl, rfl, rfl⟩
      | next _ _ => cases hindex
      | whenTrue _ _ => cases hsite
      | whenFalse _ _ => cases hsite
      | body _ _ _ => cases hsite
  | next here passed ih =>
      cases h' with
      -- The statement before this place was come to in one way, and left one tree.
      | next here' passed' =>
          rcases ih here' hsite (Nat.succ.inj hindex) with ⟨hplace, hscope, htree⟩
          cases hplace
          cases hscope
          cases htree
          rw [passed] at passed'
          cases passed'
          exact ⟨rfl, rfl, rfl⟩
      | start => cases hindex
      | whenTrue _ _ => cases hindex
      | whenFalse _ _ => cases hindex
      | body _ _ _ => cases hindex
  | whenTrue here typed ih =>
      cases h' with
      | whenTrue here' typed' =>
          cases hsite
          rcases ih here' rfl rfl with ⟨hplace, hscope, htree⟩
          cases hplace
          cases hscope
          cases htree
          exact ⟨rfl, rfl, rfl⟩
      | start => cases hsite
      | next _ _ => cases hindex
      | whenFalse _ _ => cases hsite
      | body _ _ _ => cases hsite
  | whenFalse here passed ih =>
      cases h' with
      -- The tree behind the first block is what its check left, and that is one.
      | whenFalse here' passed' =>
          cases hsite
          rcases ih here' rfl rfl with ⟨hplace, hscope, htree⟩
          cases hplace
          cases hscope
          cases htree
          rw [passed] at passed'
          cases passed'
          exact ⟨rfl, rfl, rfl⟩
      | start => cases hsite
      | next _ _ => cases hindex
      | whenTrue _ _ => cases hsite
      | body _ _ _ => cases hsite
  | body here declared passed ih =>
      cases h' with
      | body here' declared' passed' =>
          cases hsite
          rcases ih here' rfl rfl with ⟨hplace, hscope, htree⟩
          cases hplace
          cases hscope
          cases htree
          rw [declared] at declared'
          cases declared'
          rw [passed] at passed'
          cases passed'
          exact ⟨rfl, rfl, rfl⟩
      | start => cases hsite
      | next _ _ => cases hindex
      | whenTrue _ _ => cases hsite
      | whenFalse _ _ => cases hsite

/-- Between two trees nothing was taken back, and no block that is reached from
    another in one of the given ways got another record. -/
structure Settled (site : Site) (ways : Nat × BlockRole → Prop) (before final : ScopeTree) :
    Prop where
  scopes : before.Extends final
  blocks : ∀ other way, site.wayIn? other = some way → ways way →
    final.blockScope? other = before.blockScope? other

theorem settled_refl (site : Site) (ways : Nat × BlockRole → Prop) (tree : ScopeTree) :
    Settled site ways tree tree :=
  ⟨extends_refl tree, fun _ _ _ _ => rfl⟩

/-- Growth for sites that are reached in other ways comes before what is
    settled. -/
theorem settled_of_grows {site : Site} {ways : Nat × BlockRole → Prop} {sites : Site → Prop}
    {scope : ScopeId} {before after final : ScopeTree} (h : Settled site ways after final)
    (hgrows : Grows scope sites before after)
    (hother : ∀ other way, site.wayIn? other = some way → ways way → ¬ sites other) :
    Settled site ways before final := by
  refine ⟨extends_trans (extends_of_grows hgrows) h.scopes, fun other way hentry hway => ?_⟩
  rw [h.blocks other way hentry hway, hgrows.blocks other (hother other way hentry hway)]

theorem settled_mono {site : Site} {ways fewer : Nat × BlockRole → Prop}
    {before final : ScopeTree} (h : Settled site ways before final)
    (hsub : ∀ way, fewer way → ways way) : Settled site fewer before final :=
  ⟨h.scopes, fun other way hentry hway => h.blocks other way hentry (hsub way hway)⟩

/-- What is settled for one way into a block is settled inside it. -/
theorem settled_inside {site : Site} {index : Nat} {role : BlockRole} {before final : ScopeTree}
    (h : Settled site (· = (index, role)) before final) :
    Settled (.inside site index role) (fun _ => True) before final :=
  ⟨h.scopes, fun other _ hentry _ =>
    h.blocks other (index, role) (Site.wayIn?_of_deeper hentry) rfl⟩

/-- The check of all that is left at a place passes, in a scope that the tree
    has, and what is added to the tree afterwards is added elsewhere. -/
structure Checked (final : ScopeTree) (place : Place) (scope : ScopeId) (tree : ScopeTree) :
    Prop where
  known : scope < tree.size
  passes : ∃ after, checkStatements scope place.site place.index place.rest tree = .ok () after ∧
    Settled place.site (fun _ => True) after final

/-- A program that is accepted is checked from its start. -/
theorem checked_start {program : Block} {final : ScopeTree} (h : analyze program = .ok final) :
    Checked final ⟨.root 0, 0, program.statements⟩ globalScope .initial := by
  refine ⟨Nat.zero_lt_one, final, ?_, settled_refl _ _ final⟩
  rw [analyze] at h
  cases program with
  | mk statements line =>
      rw [checkBlock] at h
      cases hc : checkStatements globalScope (.root 0) 0 statements ScopeTree.initial with
      | error e after =>
          rw [hc] at h
          cases h
      | ok u after =>
          rw [hc] at h
          cases h
          exact hc

theorem extends_of_checked {final : ScopeTree} {place : Place} {scope : ScopeId}
    {tree : ScopeTree} (h : Checked final place scope tree) : tree.Extends final := by
  rcases h.passes with ⟨after, hafter, hsettled⟩
  have hgrows := keeps_ok (Checker.keeps_checkStatements scope _ _ _) hafter
  exact extends_trans (extends_of_grows hgrows) hsettled.scopes

section Statement

variable {final : ScopeTree} {site : Site} {index : Nat} {statement : Statement}
  {rest : List Statement} {scope : ScopeId} {tree : ScopeTree}

/-- The next statement passes, the rest is checked behind it, and nothing is
    added any more to the blocks of that statement. -/
theorem checked_statement (h : Checked final ⟨site, index, statement :: rest⟩ scope tree) :
    ∃ after, checkStatement scope site index statement tree = .ok () after ∧
      Checked final ⟨site, index + 1, rest⟩ scope after ∧
      Settled site (fun way => way.1 = index) after final := by
  rcases h.passes with ⟨last, hlast, hsettled⟩
  rw [checkStatements] at hlast
  rcases bind_eq_ok.mp hlast with ⟨u, after, hafter, hrest⟩
  have hgrows := keeps_ok (Checker.keeps_checkStatement scope site index statement) hafter
  refine ⟨after, hafter, ⟨lt_size_of_grows hgrows h.known, last, hrest, hsettled⟩, ?_⟩
  have hlater := keeps_ok (Checker.keeps_checkStatements scope site (index + 1) rest) hrest
  refine settled_of_grows (settled_mono hsettled fun _ _ => trivial) hlater ?_
  rintro other way hentry hway ⟨i, role, hle, hi⟩
  -- A site that is reached through this statement is not reached through a later one.
  rw [hentry] at hi
  cases hi
  have hsame : i = index := hway
  rw [hsame] at hle
  exact absurd hle (Nat.not_succ_le_self index)

/-- Where a list of statements is checked, each of them is come to, in the
    same scope. -/
theorem checked_nth {statements : List Statement} {k : Nat}
    (h : Checked final ⟨site, index, statements⟩ scope tree)
    (hk : statements[k]? = some statement) :
    ∃ later here, Checked final ⟨site, index + k, statement :: later⟩ scope here := by
  induction statements generalizing index k tree with
  | nil =>
      rw [List.getElem?_nil] at hk
      cases hk
  | cons first others ih =>
      cases k with
      | zero =>
          cases hk
          exact ⟨others, tree, h⟩
      | succ k =>
          rcases checked_statement h with ⟨after, _, hothers, _⟩
          rcases ih hothers hk with ⟨later, here, hhere⟩
          rw [Nat.add_assoc, Nat.add_comm 1 k] at hhere
          exact ⟨later, here, hhere⟩

end Statement

/-- A scope that was opened for a block leads outward through its parent. -/
theorem ancestors_opened {tree : ScopeTree} {scope : ScopeId} (name : String) (site : Site)
    (hscope : scope < tree.size) :
    (tree.opened scope name site).ancestors tree.size = tree.size :: tree.ancestors scope := by
  have hbind : (tree.push scope name).2.Extends (tree.opened scope name site) :=
    fun _ old h => ⟨old, h, old.extends_refl⟩
  rw [ancestors_of_extends hbind (tree.lt_size_push scope name), ancestors_push name hscope]

section Blocks

variable {final : ScopeTree} {site : Site} {index : Nat} {role : BlockRole} {scope : ScopeId}
  {tree after : ScopeTree} {block : Block} {name : String}

/-- A block that was opened, and to which nothing is added any more, is checked
    from its start. Its record is still there, and its scope leads outward
    through the scope that the block stands in. -/
theorem checked_opened (hscope : scope < tree.size)
    (hpass : checkBlock tree.size (.inside site index role) block
      (tree.opened scope name (.inside site index role)) = .ok () after)
    (hsettled : Settled site (· = (index, role)) after final) :
    final.blockScope? (.inside site index role) = some tree.size ∧
      final.ancestors tree.size = tree.size :: final.ancestors scope ∧
      Checked final ⟨.inside site index role, 0, block.statements⟩ tree.size
        (tree.opened scope name (.inside site index role)) := by
  have hsize := tree.lt_size_opened scope name (.inside site index role)
  have hinner := keeps_ok (Checker.keeps_checkBlock tree.size (.inside site index role) block) hpass
  have hextends := extends_trans (extends_of_grows hinner) hsettled.scopes
  refine ⟨?_, ?_, hsize, after, ?_, settled_inside hsettled⟩
  -- The record was made when the block was opened, and what is inside has other sites.
  · rw [hsettled.blocks _ _ (Site.wayIn?_inside site index role) rfl, hinner.blocks]
    · exact Table.get?_insert_self _ _ _
    · rintro ⟨i, r, _, hentry⟩
      rw [Site.wayIn?_self] at hentry
      cases hentry
  -- The way outward through the parent is the same at the end as it was then.
  · have hopened : Grows scope (fun _ => True) tree
        (tree.opened scope name (.inside site index role)) :=
      grows_opened scope tree scope name trivial
    rw [ancestors_of_extends hextends hsize, ancestors_opened name _ hscope,
      ancestors_of_extends (extends_trans (extends_of_grows hopened) hextends) hscope]
  · cases block with
    | mk statements line =>
        rw [checkBlock] at hpass
        exact hpass

/-- What a conditional needs to pass: a condition with a type, a first block
    that passes in a scope of its own, and a second one behind it, if there is
    one. -/
theorem checkStatement_branch {condition : Expr} {whenTrue : Block} {whenFalse : Option Block}
    {line : Nat}
    (h : checkStatement scope site index (.branch condition whenTrue whenFalse line) tree =
      .ok () after) :
    ∃ ty mid, tree.typeOf scope condition = .ok ty ∧
      checkBlock tree.size (.inside site index .whenTrue) whenTrue
        (tree.opened scope "if" (.inside site index .whenTrue)) = .ok () mid ∧
      (whenFalse = none → after = mid) ∧
      ∀ block, whenFalse = some block →
        checkBlock mid.size (.inside site index .whenFalse) block
          (mid.opened scope "else" (.inside site index .whenFalse)) = .ok () after := by
  cases whenFalse with
  | none =>
      rw [checkStatement] at h
      rcases bind_eq_ok.mp h with ⟨ty, known, hty, hopen⟩
      rcases Checker.typeOf_eq_ok.mp hty with ⟨htyped, rfl⟩
      rw [bind_of_ok (Checker.openBlock_apply scope "if" _ known)] at hopen
      rcases bind_eq_ok.mp hopen with ⟨u, mid, hmid, hend⟩
      rw [pure_apply] at hend
      cases hend
      exact ⟨ty, after, htyped, hmid, fun _ => rfl, fun _ h => (nomatch h)⟩
  | some block =>
      rw [checkStatement] at h
      rcases bind_eq_ok.mp h with ⟨ty, known, hty, hopen⟩
      rcases Checker.typeOf_eq_ok.mp hty with ⟨htyped, rfl⟩
      rw [bind_of_ok (Checker.openBlock_apply scope "if" _ known)] at hopen
      rcases bind_eq_ok.mp hopen with ⟨u, mid, hmid, hend⟩
      rw [bind_of_ok (Checker.openBlock_apply scope "else" _ mid)] at hend
      refine ⟨ty, mid, htyped, hmid, (fun h => nomatch h), fun other hother => ?_⟩
      cases hother
      exact hend

/-- What a function needs to pass: a name that is free where it stands, and
    parameters and a body that pass in a scope of its own. -/
theorem checkStatement_function {params : List Param} {body : Block} {line : Nat}
    (h : checkStatement scope site index (.function name params body line) tree = .ok () after) :
    ∃ named inner,
      Checker.declare scope
        (.func { name, params := params.map Param.symbol, body, site := .inside site index .body,
                 scope := tree.size })
        line (tree.push scope name).2 = .ok () named ∧
      Checker.declareParams tree.size params named = .ok () inner ∧
      checkBlock tree.size (.inside site index .body) body inner = .ok () after := by
  rw [checkStatement, bind_of_ok (Checker.openScope_apply scope name tree)] at h
  rcases bind_eq_ok.mp h with ⟨_, named, hnamed, hparams⟩
  rcases bind_eq_ok.mp hparams with ⟨_, inner, hinner, hbody⟩
  exact ⟨named, inner, hnamed, hinner, hbody⟩

variable {condition : Expr} {whenTrue : Block} {whenFalse : Option Block} {line : Nat}
  {rest : List Statement}

/-- At a conditional that is checked, the first block is checked in the scope
    that is recorded for it. -/
theorem checked_whenTrue
    (h : Checked final ⟨site, index, .branch condition whenTrue whenFalse line :: rest⟩
      scope tree) :
    ∃ ty, tree.typeOf scope condition = .ok ty ∧
      final.blockScope? (.inside site index .whenTrue) = some tree.size ∧
      final.ancestors tree.size = tree.size :: final.ancestors scope ∧
      Checked final ⟨.inside site index .whenTrue, 0, whenTrue.statements⟩ tree.size
        (tree.opened scope "if" (.inside site index .whenTrue)) := by
  rcases checked_statement h with ⟨after, hafter, _, hsettled⟩
  rcases checkStatement_branch hafter with ⟨ty, mid, htyped, hmid, hnone, hsome⟩
  refine ⟨ty, htyped, checked_opened h.known hmid ?_⟩
  have hhere : Settled site (· = (index, .whenTrue)) after final :=
    settled_mono hsettled fun way hway => by rw [hway]
  cases whenFalse with
  | none =>
      rw [← hnone rfl]
      exact hhere
  | some block =>
      -- The other block is reached in another way.
      have hinner := keeps_ok (Checker.keeps_checkBlock mid.size _ block) (hsome block rfl)
      have hgrows := Checker.grows_opened_block hinner
      refine settled_of_grows hhere hgrows fun other way hentry hway hfalse => ?_
      rw [hentry, hway] at hfalse
      cases hfalse

/-- At a conditional that is checked, the second block is checked behind the
    first, in the scope that is recorded for it. -/
theorem checked_whenFalse
    (h : Checked final ⟨site, index, .branch condition whenTrue (some block) line :: rest⟩
      scope tree) :
    ∃ mid, checkBlock tree.size (.inside site index .whenTrue) whenTrue
        (tree.opened scope "if" (.inside site index .whenTrue)) = .ok () mid ∧
      final.blockScope? (.inside site index .whenFalse) = some mid.size ∧
      final.ancestors mid.size = mid.size :: final.ancestors scope ∧
      Checked final ⟨.inside site index .whenFalse, 0, block.statements⟩ mid.size
        (mid.opened scope "else" (.inside site index .whenFalse)) := by
  rcases checked_statement h with ⟨after, hafter, _, hsettled⟩
  rcases checkStatement_branch hafter with ⟨ty, mid, _, hmid, _, hsome⟩
  -- The scope around is still there behind the first block.
  have hinner := keeps_ok (Checker.keeps_checkBlock tree.size _ whenTrue) hmid
  have hgrows := Checker.grows_opened_block hinner
  have hhere : Settled site (· = (index, .whenFalse)) after final :=
    settled_mono hsettled fun way hway => by rw [hway]
  exact ⟨mid, hmid,
    checked_opened (lt_size_of_grows hgrows h.known) (hsome block rfl) hhere⟩

/-- At a function that is checked, its symbol is declared with a scope that
    leads outward through the one it stands in, and the body is checked in
    that scope behind the parameters. -/
theorem checked_body {params : List Param} {body : Block}
    (h : Checked final ⟨site, index, .function name params body line :: rest⟩ scope tree) :
    ∃ named inner,
      Checker.declare scope
        (.func { name, params := params.map Param.symbol, body, site := .inside site index .body,
                 scope := tree.size })
        line (tree.push scope name).2 = .ok () named ∧
      named.Extends final ∧
      final.ancestors tree.size = tree.size :: final.ancestors scope ∧
      Checked final ⟨.inside site index .body, 0, body.statements⟩ tree.size inner := by
  rcases checked_statement h with ⟨after, hafter, _, hsettled⟩
  rcases checkStatement_function hafter with ⟨named, inner, hnamed, hinner, hbody⟩
  have hsize := tree.lt_size_push scope name
  have hpushed := grows_push scope (fun _ => True) tree scope name
  have hdeclared := keeps_ok (Checker.keeps_declare scope (fun _ => True) _ line) hnamed
  have hparams := keeps_ok (Checker.keeps_declareParams tree.size (fun _ => True) params) hinner
  have hblock := keeps_ok (Checker.keeps_checkBlock tree.size _ body) hbody
  -- From the name on, all that is added is added further in or later.
  have hextends : named.Extends final :=
    extends_trans (extends_of_grows hparams)
      (extends_trans (extends_of_grows hblock) hsettled.scopes)
  have hfrom := extends_trans (extends_of_grows hdeclared) hextends
  refine ⟨named, inner, hnamed, hextends, ?_, ?_, after, ?_, settled_inside ?_⟩
  · rw [ancestors_of_extends hfrom hsize, ancestors_push name h.known,
      ancestors_of_extends (extends_trans (extends_of_grows hpushed) hfrom) h.known]
  · exact lt_size_of_grows hparams (lt_size_of_grows hdeclared hsize)
  · cases body with
    | mk statements line =>
        rw [checkBlock] at hbody
        exact hbody
  · exact settled_mono hsettled fun way hway => by rw [hway]

end Blocks

end Scriptlet
