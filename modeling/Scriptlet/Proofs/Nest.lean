import Mathlib.Data.List.Forall2
import Scriptlet.Table

/-!
# Nests of Tables

Tables one inside another, as block structure needs them: a name means what the
innermost table that has it says, a declaration goes to the innermost table,
and entering a block puts an empty table inside all others. A nest is never
empty. It knows nothing of scope trees, of indices or of where a block stands,
so what is said in terms of nests is said about nesting alone.

Both sides of the theory use nests. The names that a checker knows and the
values that a run binds are nests of different contents, and to say that the
two fit is to relate them layer by layer.

## Main definitions

* `Nest`: Tables, the innermost first.
* `Nest.get?`: What the innermost table that has a name says.
* `Nest.declare`, `Nest.assign?`: Set a name in the innermost table, and in the
  innermost table that has it.
* `Nest.enter`, `Nest.leave`: Add and drop an innermost table.
* `Nest.Related`: Two nests related layer by layer.

## Theorems

* `Nest.layers_assign?`: Assignment in terms of the layers.
* `Nest.get?_declare_self`, `Nest.get?_declare_other`: A declaration changes
  what one name means.
* `Nest.get?_of_related`: What one of two related nests has is found in the
  other.
* `Nest.assign?_of_related`: It can be assigned there, too.
* `Nest.related_declare`, `Nest.related_enter`, `Nest.related_leave`: What keeps
  nests related.
-/

namespace Scriptlet

/-- Tables one inside another, at least one. -/
structure Nest (α : Type) where
  /-- The innermost table. -/
  top : Table String α
  /-- The tables around it, from the inside out. -/
  below : List (Table String α)

namespace Nest

variable {α β : Type}

/-- One empty table. -/
def single : Nest α := { top := .empty, below := [] }

/-- All tables, the innermost first. -/
def layers (nest : Nest α) : List (Table String α) := nest.top :: nest.below

/-- What the innermost table that has a name says. -/
def get? (nest : Nest α) (name : String) : Option α :=
  nest.layers.findSome? fun layer => layer.get? name

/-- Sets a name in the innermost table, whether it was there or not. -/
def declare (nest : Nest α) (name : String) (entry : α) : Nest α :=
  { nest with top := nest.top.insert name entry }

/-- Sets a name in the first table that has it, if one has. -/
def assignFirst? (name : String) (entry : α) :
    List (Table String α) → Option (List (Table String α))
  | [] => none
  | layer :: outer =>
    if layer.contains name then some (layer.insert name entry :: outer)
    else (assignFirst? name entry outer).map (layer :: ·)

/-- Sets a name in the innermost table that has it, if one has. -/
def assign? (nest : Nest α) (name : String) (entry : α) : Option (Nest α) :=
  if nest.top.contains name then some (nest.declare name entry)
  else (assignFirst? name entry nest.below).map fun below => { nest with below }

/-- Puts an empty table inside all others. -/
def enter (nest : Nest α) : Nest α := { top := .empty, below := nest.layers }

/-- Drops the innermost table, unless it is the only one. -/
def leave (nest : Nest α) : Nest α :=
  match nest.below with
  | [] => nest
  | layer :: outer => { top := layer, below := outer }

/-- Two nests of one depth, each layer of the first related to the layer at the
    same depth in the second. -/
def Related (R : Table String α → Table String β → Prop) (a : Nest α) (b : Nest β) : Prop :=
  R a.top b.top ∧ List.Forall₂ R a.below b.below

theorem layers_injective {a b : Nest α} (h : a.layers = b.layers) : a = b := by
  rcases a with ⟨top, below⟩
  rcases b with ⟨top', below'⟩
  rw [layers, layers, List.cons.injEq] at h
  rw [mk.injEq]
  exact h

/-- Assignment goes to the first of the layers that has the name. -/
theorem layers_assign? (nest : Nest α) (name : String) (entry : α) :
    (nest.assign? name entry).map layers = assignFirst? name entry nest.layers := by
  rw [assign?, layers, assignFirst?]
  by_cases htop : nest.top.contains name = true
  · rw [if_pos htop, if_pos htop, Option.map_some]
    rfl
  · rw [if_neg htop, if_neg htop, Option.map_map]
    rfl

/-- An empty table inside all others says nothing. -/
theorem get?_enter (nest : Nest α) (name : String) : nest.enter.get? name = nest.get? name := rfl

theorem get?_declare_self (nest : Nest α) (name : String) (entry : α) :
    (nest.declare name entry).get? name = some entry := by
  rw [get?, layers, List.findSome?_cons, declare, Table.get?_insert_self]

theorem get?_declare_other (nest : Nest α) {name other : String} (entry : α)
    (h : other ≠ name) : (nest.declare name entry).get? other = nest.get? other := by
  rw [get?, get?, layers, layers, List.findSome?_cons, List.findSome?_cons, declare,
    Table.get?_insert_other _ _ h]

variable {R : Table String α → Table String β → Prop}

theorem related_layers {a : Nest α} {b : Nest β} (h : Related R a b) :
    List.Forall₂ R a.layers b.layers :=
  List.Forall₂.cons h.1 h.2

section Lookup

variable {name : String} {y : β}

-- The two hypotheses say, of the layers one by one, that the first kind of
-- table follows the second: it lacks the name where the second lacks it, and
-- has it, suitably, where the second says `y`.
variable (hnone : ∀ {s t}, R s t → t.get? name = none → s.get? name = none)

include hnone

theorem findSome?_of_forall₂ {E : α → Prop} {first : List (Table String α)}
    {second : List (Table String β)} (h : List.Forall₂ R first second)
    (hy : (second.findSome? fun layer => layer.get? name) = some y)
    (hsome : ∀ {s t}, R s t → t.get? name = some y → ∃ x, s.get? name = some x ∧ E x) :
    ∃ x, (first.findSome? fun layer => layer.get? name) = some x ∧ E x := by
  induction h with
  | nil => simp only [List.findSome?_nil, reduceCtorEq] at hy
  | @cons s t _ _ hst _ ih =>
      rw [List.findSome?_cons] at hy ⊢
      -- The innermost layer decides if it has the name, and else the layers around it.
      cases ht : t.get? name with
      | none =>
          rw [ht] at hy
          rw [hnone hst ht]
          exact ih hy
      | some z =>
          rw [ht] at hy
          have hzy : z = y := Option.some.inj hy
          rw [hzy] at ht
          rcases hsome hst ht with ⟨x, hx, hE⟩
          rw [hx]
          exact ⟨x, rfl, hE⟩

/-- A name that one nest has is found in the other, where the layers
    correspond. -/
theorem get?_of_related {E : α → Prop} {a : Nest α} {b : Nest β} (h : Related R a b)
    (hy : b.get? name = some y)
    (hsome : ∀ {s t}, R s t → t.get? name = some y → ∃ x, s.get? name = some x ∧ E x) :
    ∃ x, a.get? name = some x ∧ E x :=
  findSome?_of_forall₂ hnone (related_layers h) hy hsome

theorem assignFirst?_of_forall₂ {x : α} {first : List (Table String α)}
    {second : List (Table String β)} (h : List.Forall₂ R first second)
    (hy : (second.findSome? fun layer => layer.get? name) = some y)
    (hsome : ∀ {s t}, R s t → t.get? name = some y →
      s.contains name = true ∧ R (s.insert name x) t) :
    ∃ after, assignFirst? name x first = some after ∧ List.Forall₂ R after second := by
  induction h with
  | nil => simp only [List.findSome?_nil, reduceCtorEq] at hy
  | @cons s t _ _ hst hrest ih =>
      rw [List.findSome?_cons] at hy
      rw [assignFirst?]
      cases ht : t.get? name with
      | none =>
          rw [ht] at hy
          have hs : ¬ s.contains name = true := by
            simp only [Table.contains, hnone hst ht, Option.isSome_none, Bool.false_eq_true,
              not_false_eq_true]
          rcases ih hy with ⟨after, hafter, hrel⟩
          rw [if_neg hs, hafter]
          exact ⟨s :: after, rfl, List.Forall₂.cons hst hrel⟩
      | some z =>
          rw [ht] at hy
          have hzy : z = y := Option.some.inj hy
          rw [hzy] at ht
          rcases hsome hst ht with ⟨hs, hinsert⟩
          rw [if_pos hs]
          exact ⟨_, rfl, List.Forall₂.cons hinsert hrest⟩

/-- A name that one nest has can be assigned in the other, and the two stay
    related. -/
theorem assign?_of_related {x : α} {a : Nest α} {b : Nest β} (h : Related R a b)
    (hy : b.get? name = some y)
    (hsome : ∀ {s t}, R s t → t.get? name = some y →
      s.contains name = true ∧ R (s.insert name x) t) :
    ∃ a', a.assign? name x = some a' ∧ Related R a' b := by
  rcases assignFirst?_of_forall₂ hnone (related_layers h) hy hsome with ⟨after, hafter, hrel⟩
  -- Assigning in the list of layers is assigning in the nest.
  rw [← layers_assign?] at hafter
  rcases Option.map_eq_some_iff.mp hafter with ⟨a', ha', hlayers⟩
  rw [← hlayers] at hrel
  exact ⟨a', ha', List.forall₂_cons.mp hrel⟩

end Lookup

/-- Two declarations keep nests related if they do so in the innermost
    tables. -/
theorem related_declare {a : Nest α} {b : Nest β} {name : String} {x : α} {y : β}
    (h : Related R a b) (htop : R (a.top.insert name x) (b.top.insert name y)) :
    Related R (a.declare name x) (b.declare name y) :=
  ⟨htop, h.2⟩

theorem related_enter {a : Nest α} {b : Nest β} (h : Related R a b)
    (hempty : R .empty .empty) : Related R a.enter b.enter :=
  ⟨hempty, related_layers h⟩

/-- Leaving a nest gives one related to whatever its outer layers were related
    to. -/
theorem related_leave {a : Nest α} {b : Nest β} (h : List.Forall₂ R a.below b.layers) :
    Related R a.leave b := by
  rcases hbelow : a.below with _ | ⟨layer, outer⟩
  -- There is a layer for the other nest to be related to.
  · rw [hbelow] at h
    cases h
  · rw [hbelow] at h
    rcases List.forall₂_cons.mp h with ⟨htop, houter⟩
    simp only [leave, hbelow]
    exact ⟨htop, houter⟩

end Nest

end Scriptlet
