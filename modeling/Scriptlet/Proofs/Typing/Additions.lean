import Scriptlet.Proofs.Typing.Growth

/-!
# What a Check Adds

Growth says what a check leaves as it was. Here is what it adds, be it that it
passes or that it fails halfway. New scopes are inside the scope in which the
checker stands: each was opened in that scope or in one that is new itself, so
the way outward from it comes to that scope in the end. And to that scope
itself a statement adds at most one name. A declaration adds its own if it
passes, and a function adds its own if the name is free, since it takes the
name before anything in it is looked at.

## Main definitions

* `ScopeTree.Sprouts`: A tree whose new scopes are inside one scope.
* `ScopeTree.Leaves`, `ScopeTree.Gains`: A scope that is as it was, and one that
  has gained some symbols and nothing else.
* `Adds`: What a statement adds to the scope that it stands in.

## Theorems

* `Checker.sprouts_checkStatement`, `Checker.sprouts_checkBlock`: A check opens
  scopes inside the one in which it stands.
* `ScopeTree.mem_ancestors_of_sprouts`: The way outward from a new scope comes
  to it.
* `Checker.gains_checkStatement`: A statement adds just what it is said to add.
-/

namespace Scriptlet

open Outcome ScopeTree

namespace ScopeTree

/-- A tree that extends another by scopes which were opened in a given scope or
    in one another. -/
structure Sprouts (scope : ScopeId) (before after : ScopeTree) : Prop where
  grown : before.Extends after
  parents : scope < before.size → ∀ id, before.size ≤ id → id < after.size →
    ∃ parent, after.parent? id = some parent ∧ parent < id ∧
      (parent = scope ∨ before.size ≤ parent)

section Sprouts

variable {scope child : ScopeId} {before mid after tree : ScopeTree}

theorem size_le_of_extends (h : before.Extends after) : before.size ≤ after.size := by
  refine Nat.le_of_not_lt fun hlt => ?_
  exact Nat.lt_irrefl after.size (lt_size_of_extends h hlt)

/-- Where no scope was opened, there is nothing to say. -/
theorem sprouts_of_size (h : before.Extends after) (hsize : after.size = before.size) :
    Sprouts scope before after := by
  refine ⟨h, fun _ id hnew hlt => ?_⟩
  omega

theorem sprouts_refl (scope : ScopeId) (tree : ScopeTree) : Sprouts scope tree tree :=
  sprouts_of_size (extends_refl tree) rfl

/-- What sprouts in a scope that is new itself sprouts in the scope around. -/
theorem sprouts_inner (hbefore : Sprouts scope before mid)
    (hchild : child = scope ∨ before.size ≤ child) (hknown : child < mid.size)
    (hmid : Sprouts child mid after) : Sprouts scope before after := by
  refine ⟨extends_trans hbefore.grown hmid.grown, fun hscope id hnew hlt => ?_⟩
  by_cases hid : id < mid.size
  -- A scope that was there in between still has the parent that it had.
  · rw [parent?_of_extends hmid.grown hid]
    exact hbefore.parents hscope id hnew hid
  · rcases hmid.parents hknown id (Nat.le_of_not_lt hid) hlt with ⟨parent, hparent, hold, hwhere⟩
    refine ⟨parent, hparent, hold, ?_⟩
    rcases hwhere with rfl | hlate
    · exact hchild
    · exact Or.inr (Nat.le_trans (size_le_of_extends hbefore.grown) hlate)

theorem sprouts_trans (hbefore : Sprouts scope before mid) (hmid : Sprouts scope mid after) :
    Sprouts scope before after := by
  refine ⟨extends_trans hbefore.grown hmid.grown, fun hscope => ?_⟩
  have hknown := lt_size_of_extends hbefore.grown hscope
  exact (sprouts_inner hbefore (Or.inl rfl) hknown hmid).parents hscope

theorem sprouts_push (tree : ScopeTree) (scope : ScopeId) (name : String) :
    Sprouts scope tree (tree.push scope name).2 := by
  refine ⟨extends_of_grows (grows_push scope (fun _ => True) tree scope name), ?_⟩
  intro hscope id hnew hlt
  have hid : id = tree.size := by
    simp only [push, size, List.length_append, List.length_singleton] at hnew hlt ⊢
    omega
  rw [hid, parent?, get?_push_size, Option.bind_some]
  exact ⟨scope, rfl, hscope, Or.inl rfl⟩

theorem sprouts_opened (tree : ScopeTree) (scope : ScopeId) (name : String) (site : Site) :
    Sprouts scope tree (tree.opened scope name site) := by
  have hrecord : Grows scope (fun _ => True) (tree.push scope name).2
      (tree.opened scope name site) :=
    grows_bindBlock scope _ tree.size trivial
  exact sprouts_trans (sprouts_push tree scope name)
    (sprouts_of_size (extends_of_grows hrecord) rfl)

theorem sprouts_insert? {symbol : Symbol} (h : tree.insert? child symbol = some after) :
    Sprouts scope tree after :=
  sprouts_of_size (extends_of_grows (grows_insert? (fun _ => True) h)) (size_insert? h)

/-- The way outward from a new scope comes to the scope in which it sprouted. -/
theorem mem_ancestors_of_sprouts (h : Sprouts scope before after) (hscope : scope < before.size)
    {id : ScopeId} (hnew : before.size ≤ id) (hid : id < after.size) :
    scope ∈ (after.ancestors id).tail := by
  -- A parent is older than its child, so the induction is on the index.
  induction id using Nat.strongRecOn with
  | ind id ih =>
    rcases h.parents hscope id hnew hid with ⟨parent, hparent, hlt, hwhere⟩
    rw [ancestors_of_parent? hparent hlt, List.tail_cons]
    rcases hwhere with rfl | hlate
    · rw [ancestors]
      exact List.mem_cons_self
    · exact List.mem_of_mem_tail (ih parent hlt hlate (Nat.lt_trans hlt hid))

end Sprouts

end ScopeTree

namespace Checker

/-! ### Scopes that are opened -/

theorem sprouts_seq {scope : ScopeId} {α β : Type} {x : Checker α} {f : α → Checker β}
    (hx : Keeps (Sprouts scope) x) (hf : ∀ a, Keeps (Sprouts scope) (f a)) :
    Keeps (Sprouts scope) (x >>= f) :=
  keeps_bind (R := Sprouts scope) (fun _ _ _ => sprouts_trans) hx hf

section Steps

variable (scope : ScopeId)

theorem sprouts_looks {α : Type} {look : ScopeTree → Except CheckError α} {x : Checker α}
    (h : Looks look x) : Keeps (Sprouts scope) x :=
  keeps_of_looks (sprouts_refl scope) h

theorem sprouts_declare (place : ScopeId) (symbol : Symbol) (line : Nat) :
    Keeps (Sprouts scope) (declare place symbol line) := by
  intro tree
  unfold declare
  split
  · rename_i h
    exact sprouts_insert? h
  · exact sprouts_refl scope tree

theorem sprouts_declareParams (place : ScopeId) (params : List Param) :
    Keeps (Sprouts scope) (declareParams place params) := by
  induction params with
  | nil => exact fun tree => sprouts_refl scope tree
  | cons param rest ih =>
      exact sprouts_seq (sprouts_declare scope place _ _) fun _ => ih

end Steps

/-- What is checked inside a block that was opened sprouts in the scope in which
    the block stands, and so does what follows it. -/
theorem sprouts_opened_block {scope : ScopeId} {block : Checker Unit} {f : Unit → Checker Unit}
    (name : String) (site : Site) {tree : ScopeTree} (hblock : Keeps (Sprouts tree.size) block)
    (hf : ∀ u, Keeps (Sprouts scope) (f u)) :
    Sprouts scope tree (state ((block >>= f) (tree.opened scope name site))) := by
  have hopened := sprouts_opened tree scope name site
  have hsize := tree.lt_size_opened scope name site
  have hinside : ∀ after, Sprouts tree.size (tree.opened scope name site) after →
      Sprouts scope tree after := by
    intro after hafter
    exact sprouts_inner hopened (Or.inr (Nat.le_refl _)) hsize hafter
  cases hb : block (tree.opened scope name site) with
  | ok u after =>
      rw [bind_of_ok hb]
      exact sprouts_trans (hinside after (keeps_ok hblock hb)) (hf u after)
  | error e after =>
      rw [bind_of_error hb]
      exact hinside after (keeps_error hblock hb)

-- By recursion over the program, as for growth. Only branches and functions open scopes.
mutual

theorem sprouts_checkStatement (scope : ScopeId) (site : Site) (index : Nat) :
    ∀ statement : Statement, Keeps (Sprouts scope) (checkStatement scope site index statement)
  | .assign name (some declared) value line => by
      rw [checkStatement]
      refine sprouts_seq (sprouts_looks scope (looks_typeOf scope value)) fun found => ?_
      split
      · exact sprouts_declare scope scope _ line
      · exact sprouts_refl scope
  | .assign name none value line => by
      rw [checkStatement]
      refine sprouts_seq (sprouts_looks scope (looks_variableTy scope name line)) fun declared => ?_
      refine sprouts_seq (sprouts_looks scope (looks_typeOf scope value)) fun found => ?_
      split
      · exact sprouts_refl scope
      · exact sprouts_refl scope
  | .branch condition whenTrue none line => by
      rw [checkStatement]
      refine sprouts_seq (sprouts_looks scope (looks_typeOf scope condition)) fun ty tree => ?_
      rw [bind_of_ok (openBlock_apply scope "if" _ tree)]
      exact sprouts_opened_block "if" _ (sprouts_checkBlock tree.size _ whenTrue)
        fun _ => sprouts_refl scope
  | .branch condition whenTrue (some block) line => by
      rw [checkStatement]
      refine sprouts_seq (sprouts_looks scope (looks_typeOf scope condition)) fun ty tree => ?_
      rw [bind_of_ok (openBlock_apply scope "if" _ tree)]
      refine sprouts_opened_block "if" _ (sprouts_checkBlock tree.size _ whenTrue)
        fun _ after => ?_
      rw [bind_of_ok (openBlock_apply scope "else" _ after),
        ← bind_pure (checkBlock after.size (.inside site index .whenFalse) block)]
      exact sprouts_opened_block "else" _ (sprouts_checkBlock after.size _ block)
        fun _ => sprouts_refl scope
  | .function name params body line => by
      rw [checkStatement]
      intro tree
      rw [bind_of_ok (openScope_apply scope name tree)]
      have hopen := sprouts_push tree scope name
      rw [bind_apply]
      split
      -- Behind the name, all that is opened is opened in the scope of the function.
      · rename_i named h
        have hname := sprouts_trans hopen (keeps_ok (sprouts_declare scope scope _ line) h)
        have hknown := lt_size_of_extends (keeps_ok (sprouts_declare scope scope _ line) h).grown
          (tree.lt_size_push scope name)
        refine sprouts_inner hname (Or.inr (Nat.le_refl _)) hknown ?_
        exact sprouts_seq (sprouts_declareParams tree.size tree.size params)
          (fun _ => sprouts_checkBlock tree.size _ body) named
      · rename_i h
        exact sprouts_trans hopen (keeps_error (sprouts_declare scope scope _ line) h)
  | .print value line => by
      rw [checkStatement]
      exact sprouts_seq (sprouts_looks scope (looks_typeOf scope value)) fun _ => sprouts_refl scope
  | .empty => by
      rw [checkStatement]
      exact sprouts_refl scope

theorem sprouts_checkBlock (scope : ScopeId) (site : Site) :
    ∀ block : Block, Keeps (Sprouts scope) (checkBlock scope site block)
  | .mk statements line => by
      rw [checkBlock]
      exact sprouts_checkStatements scope site 0 statements

theorem sprouts_checkStatements (scope : ScopeId) (site : Site) :
    ∀ (index : Nat) (statements : List Statement),
      Keeps (Sprouts scope) (checkStatements scope site index statements)
  | index, [] => by
      rw [checkStatements]
      exact sprouts_refl scope
  | index, statement :: rest => by
      rw [checkStatements]
      exact sprouts_seq (sprouts_checkStatement scope site index statement) fun _ =>
        sprouts_checkStatements scope site (index + 1) rest

end

end Checker

/-! ### Names that are added -/

/-- What a statement adds to the scope that it stands in: a declaration its
    variable, if it passes, and a function itself, if its name is free. -/
inductive Adds (tree : ScopeTree) (scope : ScopeId) (site : Site) (index : Nat) (passed : Prop) :
    Statement → Symbol → Prop
  | declaration {name : String} {ty : Ty} {value : Expr} {line : Nat} (hpassed : passed) :
      Adds tree scope site index passed (.assign name (some ty) value line) (.var ⟨name, ty⟩)
  | function {name : String} {params : List Param} {body : Block} {line : Nat}
      (hfree : tree.lookupLocal scope name = none) :
      Adds tree scope site index passed (.function name params body line)
        (.func { name, params := params.map Param.symbol, body,
                 site := .inside site index .body, scope := tree.size })

namespace ScopeTree

/-- A tree in which a scope is the very same as in another. -/
def Leaves (scope : ScopeId) (before after : ScopeTree) : Prop :=
  ∀ old, before.get? scope = some old → after.get? scope = some old

section Leaves

variable {scope child : ScopeId} {before mid after tree : ScopeTree}

theorem leaves_refl (scope : ScopeId) (tree : ScopeTree) : Leaves scope tree tree := fun _ h => h

theorem leaves_trans (hbefore : Leaves scope before mid) (hmid : Leaves scope mid after) :
    Leaves scope before after := fun old h => hmid old (hbefore old h)

/-- Growth in one scope leaves every other one. -/
theorem leaves_of_grows {sites : Site → Prop} (h : Grows child sites before after)
    (hne : scope ≠ child) : Leaves scope before after := by
  intro old hold
  rcases h.scopes scope old hold with ⟨new, hnew, _, hsame⟩
  rw [hnew, hsame hne]

theorem leaves_opened (tree : ScopeTree) (scope parent : ScopeId) (name : String) (site : Site) :
    Leaves scope tree (tree.opened parent name site) :=
  fun _ h => get?_push parent name h

theorem lookupLocal_of_leaves (h : Leaves scope before after) (hscope : scope < before.size)
    (name : String) : after.lookupLocal scope name = before.lookupLocal scope name := by
  rcases lt_size_iff.mp hscope with ⟨old, hold⟩
  rw [lookupLocal, lookupLocal, hold, h old hold]

end Leaves

/-- A tree in one scope of which some symbols are declared in addition, and
    nothing else. -/
def Gains (scope : ScopeId) (before after : ScopeTree) (added : Symbol → Prop) : Prop :=
  ∀ name symbol, after.lookupLocal scope name = some symbol ↔
    before.lookupLocal scope name = some symbol ∨ symbol.name = name ∧ added symbol

section Gains

variable {scope : ScopeId} {before mid after : ScopeTree} {added others : Symbol → Prop}

theorem gains_of_leaves (h : Leaves scope before after) (hscope : scope < before.size)
    (hadded : ∀ symbol, ¬ added symbol) : Gains scope before after added := by
  intro name symbol
  rw [lookupLocal_of_leaves h hscope]
  exact ⟨Or.inl, fun hfound => hfound.resolve_right fun hnew => hadded symbol hnew.2⟩

theorem gains_congr (h : Gains scope before after added)
    (hsame : ∀ symbol, added symbol ↔ others symbol) : Gains scope before after others := by
  intro name symbol
  rw [h name symbol, hsame symbol]

theorem gains_insert? {symbol : Symbol} (hscope : scope < before.size)
    (h : before.insert? scope symbol = some after) : Gains scope before after (· = symbol) :=
  lookupLocal_insert? hscope h

/-- What is left as it was before and after does not count. -/
theorem gains_between (hbefore : Leaves scope before mid) (hscope : scope < before.size)
    {last : ScopeTree} (hmid : Gains scope mid after added) (hafter : Leaves scope after last)
    (hknown : scope < after.size) : Gains scope before last added := by
  intro name symbol
  rw [lookupLocal_of_leaves hafter hknown, hmid name symbol, lookupLocal_of_leaves hbefore hscope]

end Gains

end ScopeTree

namespace Checker

section Names

variable {scope : ScopeId} {site : Site} {index : Nat} {tree : ScopeTree}

theorem leaves_seq {α β : Type} {x : Checker α} {f : α → Checker β}
    (hx : Keeps (Leaves scope) x) (hf : ∀ a, Keeps (Leaves scope) (f a)) :
    Keeps (Leaves scope) (x >>= f) :=
  keeps_bind (R := Leaves scope) (fun _ _ _ => leaves_trans) hx hf

theorem leaves_looks {α : Type} {look : ScopeTree → Except CheckError α} {x : Checker α}
    (h : Looks look x) : Keeps (Leaves scope) x :=
  keeps_of_looks (leaves_refl scope) h

/-- A block that stands in a scope leaves that scope as it was, since it
    declares its names in its own. -/
theorem leaves_opened_block (name : String) (site : Site) (block : Block)
    {f : Unit → Checker Unit} (hf : ∀ u, Keeps (Leaves scope) (f u)) (tree : ScopeTree) :
    Leaves scope tree
      (state ((checkBlock tree.size site block >>= f) (tree.opened scope name site))) := by
  intro old hold
  have hne : scope ≠ tree.size := Nat.ne_of_lt (lt_size_iff.mpr ⟨old, hold⟩)
  have hblock : Keeps (Leaves scope) (checkBlock tree.size site block) :=
    fun before => leaves_of_grows (keeps_checkBlock tree.size site block before) hne
  exact leaves_seq hblock hf _ old (leaves_opened tree scope scope name site old hold)

theorem leaves_assignment (name : String) (value : Expr) (line : Nat) :
    Keeps (Leaves scope) (checkStatement scope site index (.assign name none value line)) := by
  rw [checkStatement]
  refine leaves_seq (leaves_looks (looks_variableTy scope name line)) fun declared => ?_
  refine leaves_seq (leaves_looks (looks_typeOf scope value)) fun found => ?_
  split
  · exact leaves_refl scope
  · exact leaves_refl scope

theorem leaves_branch (condition : Expr) (whenTrue : Block) (whenFalse : Option Block)
    (line : Nat) :
    Keeps (Leaves scope)
      (checkStatement scope site index (.branch condition whenTrue whenFalse line)) := by
  cases whenFalse with
  | none =>
      rw [checkStatement]
      refine leaves_seq (leaves_looks (looks_typeOf scope condition)) fun ty tree => ?_
      rw [bind_of_ok (openBlock_apply scope "if" _ tree)]
      exact leaves_opened_block "if" _ whenTrue (fun _ after => leaves_refl scope after) tree
  | some block =>
      rw [checkStatement]
      refine leaves_seq (leaves_looks (looks_typeOf scope condition)) fun ty tree => ?_
      rw [bind_of_ok (openBlock_apply scope "if" _ tree)]
      refine leaves_opened_block "if" _ whenTrue (fun _ after => ?_) tree
      rw [bind_of_ok (openBlock_apply scope "else" _ after), ← bind_pure (checkBlock _ _ block)]
      exact leaves_opened_block "else" _ block (fun _ last => leaves_refl scope last) after

theorem leaves_print (value : Expr) (line : Nat) :
    Keeps (Leaves scope) (checkStatement scope site index (.print value line)) := by
  rw [checkStatement]
  exact leaves_seq (leaves_looks (looks_typeOf scope value)) fun _ => leaves_refl scope

/-- A declaration takes its name as its last step, and fails before that. -/
theorem checkStatement_declaration_cases (scope : ScopeId) (site : Site) (index : Nat)
    (name : String) (ty : Ty) (value : Expr) (line : Nat) (tree : ScopeTree) :
    (∃ after, tree.insert? scope (.var ⟨name, ty⟩) = some after ∧
      checkStatement scope site index (.assign name (some ty) value line) tree = .ok () after) ∨
    ∃ e, checkStatement scope site index (.assign name (some ty) value line) tree =
      .error e tree := by
  rw [checkStatement, bind_apply, Checker.typeOf]
  cases tree.typeOf scope value with
  | error e => exact Or.inr ⟨e, rfl⟩
  | ok found =>
      simp only []
      by_cases hty : found = ty
      · rw [if_pos hty, declare]
        cases tree.insert? scope (.var ⟨name, ty⟩) with
        | none => exact Or.inr ⟨_, rfl⟩
        | some after => exact Or.inl ⟨after, rfl, rfl⟩
      · rw [if_neg hty]
        exact Or.inr ⟨_, rfl⟩

/-- A function opens its scope and takes its name, if that is free. Whatever
    comes of its parameters and its body, the scope that it stands in is then
    left as it is. -/
theorem checkStatement_function_cases (hscope : scope < tree.size) (name : String)
    (params : List Param) (body : Block) (line : Nat) :
    let function : Symbol := .func { name, params := params.map Param.symbol, body,
                                     site := .inside site index .body, scope := tree.size }
    let opened := (tree.push scope name).2
    let after := state (checkStatement scope site index (.function name params body line) tree)
    (∃ named, opened.insert? scope function = some named ∧ Leaves scope named after) ∨
      opened.insert? scope function = none ∧ after = opened := by
  intro function opened after
  have hafter : after = state ((declare scope function line >>= fun _ =>
      declareParams tree.size params >>= fun _ =>
        checkBlock tree.size (.inside site index .body) body) opened) := by
    simp only [after]
    rw [checkStatement, bind_of_ok (openScope_apply scope name tree)]
  cases hinsert : opened.insert? scope function with
  | none =>
      have hdeclare : declare scope function line opened =
          .error (.duplicateDeclaration function.name line) opened := by
        rw [declare, hinsert]
      rw [bind_of_error hdeclare] at hafter
      exact Or.inr ⟨rfl, hafter⟩
  | some named =>
      have hdeclare : declare scope function line opened = .ok () named := by
        rw [declare, hinsert]
      rw [bind_of_ok hdeclare] at hafter
      refine Or.inl ⟨named, rfl, ?_⟩
      rw [hafter]
      -- Parameters and body are declared in the scope of the function.
      have hne : scope ≠ tree.size := Nat.ne_of_lt hscope
      refine leaves_seq (fun before => ?_) (fun _ before => ?_) named
      · exact leaves_of_grows (keeps_declareParams tree.size (fun _ => True) params before) hne
      · exact leaves_of_grows (keeps_checkBlock tree.size _ body before) hne

/-- To the scope that it stands in, a statement adds what it is said to add and
    nothing else, whether it passes or not. -/
theorem gains_checkStatement (hscope : scope < tree.size) (statement : Statement) :
    Gains scope tree (state (checkStatement scope site index statement tree))
      (Adds tree scope site index (Passed (checkStatement scope site index statement tree))
        statement) := by
  cases statement with
  | assign name ty value line =>
      cases ty with
      | none =>
          refine gains_of_leaves (leaves_assignment name value line tree) hscope fun symbol h => ?_
          cases h
      | some ty =>
          rcases checkStatement_declaration_cases scope site index name ty value line tree with
            ⟨after, hinsert, houtcome⟩ | ⟨e, houtcome⟩
          · rw [houtcome]
            refine gains_congr (gains_insert? hscope hinsert) fun symbol => ?_
            constructor
            · rintro rfl
              exact .declaration trivial
            · rintro ⟨_⟩
              rfl
          · rw [houtcome]
            refine gains_of_leaves (leaves_refl scope tree) hscope fun symbol h => ?_
            cases h with
            | declaration hpassed => exact hpassed
  | function name params body line =>
      have hopened : Leaves scope tree (tree.push scope name).2 := fun _ h => get?_push scope name h
      have hfree := lookupLocal_of_leaves hopened hscope name
      have hknown := Nat.lt_trans hscope (tree.lt_size_push scope name)
      rcases checkStatement_function_cases hscope name params body line with
        ⟨named, hinsert, hafter⟩ | ⟨htaken, hafter⟩
      · refine gains_congr (gains_between hopened hscope (gains_insert? hknown hinsert) hafter ?_)
          fun symbol => ?_
        · rw [size_insert? hinsert]
          exact hknown
        · constructor
          · rintro rfl
            exact .function (hfree.symm.trans (insert?_eq_some hinsert).1)
          · rintro ⟨_⟩
            rfl
      · rw [hafter]
        refine gains_of_leaves hopened hscope fun symbol h => ?_
        -- A name that is free could have been taken.
        cases h with
        | function hnone =>
            simp only [insert?, Symbol.name, hfree.trans hnone, reduceCtorEq] at htaken
  | branch condition whenTrue whenFalse line =>
      refine gains_of_leaves (leaves_branch condition whenTrue whenFalse line tree) hscope
        fun symbol h => ?_
      cases h
  | print value line =>
      refine gains_of_leaves (leaves_print value line tree) hscope fun symbol h => ?_
      cases h
  | empty =>
      rw [checkStatement]
      refine gains_of_leaves (leaves_refl scope tree) hscope fun symbol h => ?_
      cases h

end Names

end Checker

end Scriptlet
