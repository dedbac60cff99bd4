import Scriptlet.Proofs.Scope.Growth

/-!
# The Scopes a Program Asks For

Which blocks of a program get a scope of their own, told from the program
alone. The program itself gets one, and so do the branches of its conditionals
and the bodies of its functions, at whatever depth. `Block.plan` lists them in
the order in which they open in the source: a block comes before the blocks
inside it, and those before the blocks behind it. A block's place in this list
is the index that its scope is to have.

No two blocks of the list stand at the same site, because a site tells by which
part of which statement the way to it leads. So the index of a block can be
asked for by its site, which is what `Block.scopeOf?` does.

## Main definitions

* `Opening`: A block that gets a scope, with what the scope is to start with.
* `Statement.openings`, `Block.openings`: The blocks inside, as they open.
* `Block.plan`: The whole program and the blocks inside.
* `Block.scopeOf?`: The index of the block at a site.
* `Statement.count`, `Block.count`: How many blocks there are with a role.

## Theorems

* `length_plan`: The blocks are counted by their roles.
* `nodup_plan`, `place_unique`: No two of them stand at the same site.
* `scopeOf?_eq_some`: The index of a block is its place in the plan.
* `mem_plan`: The blocks of a statement in a block of the plan are in the plan.
-/

namespace Scriptlet

/-- A block that gets a scope of its own: where it stands, the label of the
    scope, and the parameters that are declared there before anything else. -/
structure Opening where
  site : Site
  label : String
  params : List Param
  block : Block

mutual

/-- The blocks inside the statement with an index in the block at a site, in
    the order in which they open. -/
def Statement.openings (site : Site) (index : Nat) : Statement → List Opening
  | .branch _ whenTrue whenFalse _ =>
    ⟨.inside site index .whenTrue, "if", [], whenTrue⟩ ::
      (whenTrue.openings (.inside site index .whenTrue) ++
        match whenFalse with
        | some block =>
          ⟨.inside site index .whenFalse, "else", [], block⟩ ::
            block.openings (.inside site index .whenFalse)
        | none => [])
  | .function name params body _ =>
    ⟨.inside site index .body, name, params, body⟩ :: body.openings (.inside site index .body)
  | .assign .. | .print .. | .empty => []

/-- The blocks inside the block at a site, in the order in which they open. -/
def Block.openings (site : Site) : Block → List Opening
  | .mk statements _ => openingsOfList site 0 statements

/-- The blocks inside some statements, the first of which has the given
    index. -/
def openingsOfList (site : Site) : Nat → List Statement → List Opening
  | _, [] => []
  | index, statement :: rest =>
    statement.openings site index ++ openingsOfList site (index + 1) rest

end

/-- What a block with the role `other` adds to a count of those with a role. -/
def BlockRole.tally (role other : BlockRole) : Nat := if role = other then 1 else 0

mutual

/-- How many blocks with a role there are inside a statement, at any depth. -/
def Statement.count (role : BlockRole) : Statement → Nat
  | .branch _ whenTrue whenFalse _ =>
    role.tally .whenTrue + whenTrue.count role +
      match whenFalse with
      | some block => role.tally .whenFalse + block.count role
      | none => 0
  | .function _ _ body _ => role.tally .body + body.count role
  | .assign .. | .print .. | .empty => 0

/-- How many blocks with a role there are inside a block, at any depth. -/
def Block.count (role : BlockRole) : Block → Nat
  | .mk statements _ => countOfList role statements

/-- How many blocks with a role there are inside some statements. -/
def countOfList (role : BlockRole) : List Statement → Nat
  | [] => 0
  | statement :: rest => statement.count role + countOfList role rest

end

/-- All blocks of a program that get a scope, in the order in which they open.
    The first is the program itself. -/
def Block.plan (program : Block) : List Opening :=
  ⟨.root 0, "global", [], program⟩ :: program.openings (.root 0)

/-- The index that the scope of the block at a site is to have. -/
def Block.scopeOf? (program : Block) (site : Site) : Option ScopeId :=
  program.plan.findIdx? fun opening => opening.site = site

/-! ### Counting -/

mutual

theorem length_openings : ∀ (statement : Statement) (site : Site) (index : Nat),
    (statement.openings site index).length =
      statement.count .body + statement.count .whenTrue + statement.count .whenFalse
  | .branch condition whenTrue none line, site, index => by
      have hinner := length_openings_block whenTrue (.inside site index .whenTrue)
      simp only [Statement.openings, Statement.count, List.length_cons, List.append_nil, hinner,
        BlockRole.tally, reduceCtorEq, if_true, if_false]
      omega
  | .branch condition whenTrue (some block) line, site, index => by
      have hinner := length_openings_block whenTrue (.inside site index .whenTrue)
      have hother := length_openings_block block (.inside site index .whenFalse)
      simp only [Statement.openings, Statement.count, List.length_cons, List.length_append, hinner,
        hother, BlockRole.tally, reduceCtorEq, if_true, if_false]
      omega
  | .function name params body line, site, index => by
      have hinner := length_openings_block body (.inside site index .body)
      simp only [Statement.openings, Statement.count, List.length_cons, hinner, BlockRole.tally,
        reduceCtorEq, if_true, if_false]
      omega
  | .assign name declared value line, site, index => rfl
  | .print value line, site, index => rfl
  | .empty, site, index => rfl

theorem length_openings_block : ∀ (block : Block) (site : Site),
    (block.openings site).length =
      block.count .body + block.count .whenTrue + block.count .whenFalse
  | .mk statements line, site => by
      simp only [Block.openings, Block.count]
      exact length_openings_list statements site 0

theorem length_openings_list : ∀ (statements : List Statement) (site : Site) (index : Nat),
    (openingsOfList site index statements).length =
      countOfList .body statements + countOfList .whenTrue statements +
        countOfList .whenFalse statements
  | [], site, index => rfl
  | statement :: rest, site, index => by
      have hfirst := length_openings statement site index
      have hrest := length_openings_list rest site (index + 1)
      simp only [openingsOfList, countOfList, List.length_append, hfirst, hrest]
      omega

end

/-- One block for the program, and one for each function, each `if` and each
    `else`. -/
theorem length_plan (program : Block) :
    program.plan.length =
      1 + program.count .body + program.count .whenTrue + program.count .whenFalse := by
  rw [Block.plan, List.length_cons, length_openings_block]
  omega

/-! ### Sites -/

-- Where the blocks inside a statement stand is told by the way in: through that statement, and for
-- a conditional through the branch that they are in.
mutual

theorem through_of_mem : ∀ (statement : Statement) {site : Site} {index : Nat} {opening : Opening},
    opening ∈ statement.openings site index → site.Through index opening.site
  | .branch condition whenTrue none line, site, index, opening, h => by
      simp only [Statement.openings, List.append_nil, List.mem_cons] at h
      rcases h with rfl | h
      · exact ⟨.whenTrue, Site.wayIn?_inside site index .whenTrue⟩
      · exact ⟨.whenTrue, wayIn?_of_mem whenTrue h⟩
  | .branch condition whenTrue (some block) line, site, index, opening, h => by
      simp only [Statement.openings, List.mem_cons, List.mem_append] at h
      rcases h with rfl | h | rfl | h
      · exact ⟨.whenTrue, Site.wayIn?_inside site index .whenTrue⟩
      · exact ⟨.whenTrue, wayIn?_of_mem whenTrue h⟩
      · exact ⟨.whenFalse, Site.wayIn?_inside site index .whenFalse⟩
      · exact ⟨.whenFalse, wayIn?_of_mem block h⟩
  | .function name params body line, site, index, opening, h => by
      simp only [Statement.openings, List.mem_cons] at h
      rcases h with rfl | h
      · exact ⟨.body, Site.wayIn?_inside site index .body⟩
      · exact ⟨.body, wayIn?_of_mem body h⟩
  | .assign name declared value line, site, index, opening, h => by cases h
  | .print value line, site, index, opening, h => by cases h
  | .empty, site, index, opening, h => by cases h

theorem wayIn?_of_mem : ∀ (block : Block) {site : Site} {index : Nat} {role : BlockRole}
    {opening : Opening}, opening ∈ block.openings (.inside site index role) →
      site.wayIn? opening.site = some (index, role)
  | .mk statements line, site, index, role, opening, h => by
      rw [Block.openings] at h
      rcases from_of_mem statements h with ⟨i, r, _, hway⟩
      exact Site.wayIn?_of_deeper hway

theorem from_of_mem : ∀ (statements : List Statement) {site : Site} {index : Nat}
    {opening : Opening}, opening ∈ openingsOfList site index statements →
      site.From index opening.site
  | [], site, index, opening, h => by cases h
  | statement :: rest, site, index, opening, h => by
      rw [openingsOfList, List.mem_append] at h
      rcases h with h | h
      · rcases through_of_mem statement h with ⟨role, hway⟩
        exact ⟨index, role, Nat.le_refl index, hway⟩
      · rcases from_of_mem rest h with ⟨i, role, hle, hway⟩
        exact ⟨i, role, Nat.le_of_succ_le hle, hway⟩

end

theorem from_of_mem_block {block : Block} {site : Site} {opening : Opening}
    (h : opening ∈ block.openings site) : site.From 0 opening.site := by
  cases block with
  | mk statements line =>
      rw [Block.openings] at h
      exact from_of_mem statements h

/-- No block stands at the site of a block around it. -/
theorem site_notMem (block : Block) (site : Site) :
    site ∉ (block.openings site).map Opening.site := by
  intro h
  rcases List.mem_map.mp h with ⟨opening, hmem, hsite⟩
  rcases from_of_mem_block hmem with ⟨i, role, _, hway⟩
  rw [hsite, Site.wayIn?_self] at hway
  cases hway

/-- The sites of a block and of the blocks inside it differ if those of the
    blocks inside do. -/
theorem nodup_opened {block : Block} {site : Site}
    (h : ((block.openings site).map Opening.site).Nodup) :
    (site :: (block.openings site).map Opening.site).Nodup :=
  List.nodup_cons.mpr ⟨site_notMem block site, h⟩

/-- All blocks of one branch are reached through it, and the branch itself
    is. -/
theorem wayIn?_of_mem_branch {block : Block} {site other : Site} {index : Nat} {role : BlockRole}
    (h : other ∈ Site.inside site index role ::
      (block.openings (.inside site index role)).map Opening.site) :
    site.wayIn? other = some (index, role) := by
  rcases List.mem_cons.mp h with rfl | h
  · exact Site.wayIn?_inside site index role
  · rcases List.mem_map.mp h with ⟨opening, hmem, rfl⟩
    exact wayIn?_of_mem block hmem

mutual

theorem nodup_openings : ∀ (statement : Statement) (site : Site) (index : Nat),
    ((statement.openings site index).map Opening.site).Nodup
  | .branch condition whenTrue none line, site, index => by
      have hinner := nodup_openings_block whenTrue (.inside site index .whenTrue)
      simp only [Statement.openings, List.append_nil, List.map_cons]
      exact nodup_opened hinner
  | .branch condition whenTrue (some block) line, site, index => by
      have hinner := nodup_openings_block whenTrue (.inside site index .whenTrue)
      have hother := nodup_openings_block block (.inside site index .whenFalse)
      simp only [Statement.openings, List.map_cons, List.map_append]
      rw [← List.cons_append]
      refine List.nodup_append.mpr ⟨nodup_opened hinner, nodup_opened hother, ?_⟩
      -- One site cannot be reached through both branches.
      rintro a ha b hb rfl
      have htrue := wayIn?_of_mem_branch ha
      rw [wayIn?_of_mem_branch hb] at htrue
      cases htrue
  | .function name params body line, site, index => by
      have hinner := nodup_openings_block body (.inside site index .body)
      simp only [Statement.openings, List.map_cons]
      exact nodup_opened hinner
  | .assign name declared value line, site, index => List.nodup_nil
  | .print value line, site, index => List.nodup_nil
  | .empty, site, index => List.nodup_nil

theorem nodup_openings_block : ∀ (block : Block) (site : Site),
    ((block.openings site).map Opening.site).Nodup
  | .mk statements line, site => by
      rw [Block.openings]
      exact nodup_openings_list statements site 0

theorem nodup_openings_list : ∀ (statements : List Statement) (site : Site) (index : Nat),
    ((openingsOfList site index statements).map Opening.site).Nodup
  | [], site, index => List.nodup_nil
  | statement :: rest, site, index => by
      have hfirst := nodup_openings statement site index
      have hrest := nodup_openings_list rest site (index + 1)
      rw [openingsOfList, List.map_append]
      refine List.nodup_append.mpr ⟨hfirst, hrest, ?_⟩
      -- Nor can it be reached through this statement and a later one.
      rintro a ha b hb rfl
      rcases List.mem_map.mp ha with ⟨opening, hopening, rfl⟩
      rcases List.mem_map.mp hb with ⟨later, hlater, hsite⟩
      rcases through_of_mem statement hopening with ⟨role, hway⟩
      rcases from_of_mem rest hlater with ⟨i, r, hle, hway'⟩
      rw [hsite, hway] at hway'
      cases hway'
      omega

end

/-- No two blocks of a program stand at the same site. -/
theorem nodup_plan (program : Block) : (program.plan.map Opening.site).Nodup := by
  rw [Block.plan, List.map_cons]
  exact nodup_opened (nodup_openings_block program (.root 0))

/-- Two blocks of a program that stand at the same site are one block of its
    plan. -/
theorem place_unique {program : Block} {id other : ScopeId} {opening later : Opening}
    (h : program.plan[id]? = some opening) (h' : program.plan[other]? = some later)
    (hsite : opening.site = later.site) : id = other := by
  have hlt : id < (program.plan.map Opening.site).length := by
    rw [List.length_map]
    exact (List.getElem?_eq_some_iff.mp h).1
  refine (List.getElem?_inj hlt (nodup_plan program)).mp ?_
  rw [List.getElem?_map, List.getElem?_map, h, h', Option.map_some, Option.map_some, hsite]

/-- The index of the block at a site is its place in the plan. -/
theorem scopeOf?_eq_some {program : Block} {site : Site} {id : ScopeId} :
    program.scopeOf? site = some id ↔
      ∃ opening, program.plan[id]? = some opening ∧ opening.site = site := by
  rw [Block.scopeOf?, List.findIdx?_eq_some_iff_getElem]
  constructor
  · rintro ⟨hlt, hsite, _⟩
    exact ⟨program.plan[id], List.getElem?_eq_getElem hlt, of_decide_eq_true hsite⟩
  · rintro ⟨opening, hopening, hsite⟩
    rcases List.getElem?_eq_some_iff.mp hopening with ⟨hlt, rfl⟩
    refine ⟨hlt, decide_eq_true hsite, fun j hj hfound => ?_⟩
    -- A block before it at the same site would be a second one there.
    have hj' : j < program.plan.length := Nat.lt_trans hj hlt
    have hsame := (of_decide_eq_true hfound).trans hsite.symm
    exact Nat.ne_of_lt hj (place_unique (List.getElem?_eq_getElem hj') hopening hsame)

/-! ### Blocks inside blocks -/

-- What is listed for a block inside is listed for the whole as well, by recursion over the whole.
mutual

theorem inner_subset : ∀ (statement : Statement) {site : Site} {index : Nat} {opening : Opening},
    opening ∈ statement.openings site index →
      opening.block.openings opening.site ⊆ statement.openings site index
  | .branch condition whenTrue none line, site, index, opening, h => by
      simp only [Statement.openings, List.append_nil, List.mem_cons] at h ⊢
      rcases h with rfl | h
      · exact List.subset_cons_self _ _
      · exact List.subset_cons_of_subset _ (inner_subset_block whenTrue h)
  | .branch condition whenTrue (some block) line, site, index, opening, h => by
      simp only [Statement.openings, List.mem_cons, List.mem_append] at h ⊢
      rcases h with rfl | h | rfl | h
      · exact List.subset_cons_of_subset _ (List.subset_append_left _ _)
      · exact List.subset_cons_of_subset _
          (List.subset_append_of_subset_left _ (inner_subset_block whenTrue h))
      · exact List.subset_cons_of_subset _
          (List.subset_append_of_subset_right _ (List.subset_cons_self _ _))
      · exact List.subset_cons_of_subset _ (List.subset_append_of_subset_right _
          (List.subset_cons_of_subset _ (inner_subset_block block h)))
  | .function name params body line, site, index, opening, h => by
      simp only [Statement.openings, List.mem_cons] at h ⊢
      rcases h with rfl | h
      · exact List.subset_cons_self _ _
      · exact List.subset_cons_of_subset _ (inner_subset_block body h)
  | .assign name declared value line, site, index, opening, h => by cases h
  | .print value line, site, index, opening, h => by cases h
  | .empty, site, index, opening, h => by cases h

theorem inner_subset_block : ∀ (block : Block) {site : Site} {opening : Opening},
    opening ∈ block.openings site → opening.block.openings opening.site ⊆ block.openings site
  | .mk statements line, site, opening, h => by
      rw [Block.openings] at h ⊢
      exact inner_subset_list statements h

theorem inner_subset_list : ∀ (statements : List Statement) {site : Site} {index : Nat}
    {opening : Opening}, opening ∈ openingsOfList site index statements →
      opening.block.openings opening.site ⊆ openingsOfList site index statements
  | [], site, index, opening, h => by cases h
  | statement :: rest, site, index, opening, h => by
      rw [openingsOfList, List.mem_append] at h
      rw [openingsOfList]
      rcases h with h | h
      · exact List.subset_append_of_subset_left _ (inner_subset statement h)
      · exact List.subset_append_of_subset_right _ (inner_subset_list rest h)

end

theorem statement_subset {statements : List Statement} {k : Nat} {statement : Statement}
    (h : statements[k]? = some statement) (site : Site) (index : Nat) :
    statement.openings site (index + k) ⊆ openingsOfList site index statements := by
  induction statements generalizing k index with
  | nil =>
      rw [List.getElem?_nil] at h
      cases h
  | cons first rest ih =>
      rw [openingsOfList]
      cases k with
      | zero =>
          cases h
          exact List.subset_append_left _ _
      | succ k =>
          have hrest := ih h (index + 1)
          rw [Nat.add_assoc, Nat.add_comm 1 k] at hrest
          exact List.subset_append_of_subset_right _ hrest

/-- The blocks of a statement that stands directly in a block of the plan are
    in the plan. -/
theorem mem_plan {program : Block} {opening inner : Opening} {k : Nat} {statement : Statement}
    (h : opening ∈ program.plan) (hk : opening.block.statements[k]? = some statement)
    (hinner : inner ∈ statement.openings opening.site k) : inner ∈ program.plan := by
  have hblock : inner ∈ opening.block.openings opening.site := by
    cases hb : opening.block with
    | mk statements line =>
        rw [hb] at hk
        rw [Block.openings]
        have hsub := statement_subset hk opening.site 0
        rw [Nat.zero_add] at hsub
        exact hsub hinner
  rcases List.mem_cons.mp h with rfl | h
  · exact List.mem_cons_of_mem _ hblock
  · exact List.mem_cons_of_mem _ (inner_subset_block program h hblock)

end Scriptlet
