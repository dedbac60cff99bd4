import Mathlib.Data.List.Find
import Mathlib.Data.Option.Basic
import Scriptlet.Proofs.Nest
import Scriptlet.Proofs.Outcome
import Scriptlet.Proofs.Scope.Growth
import Scriptlet.Run.Program

/-!
# Frames of a Run

Three things about the frames of a context. First, whatever is run, the frames
afterwards are for the same scopes as before: a branch leaves the frame that it
entered, and nothing else enters or leaves. Second, reading a name takes the
first value on the way outward and assigning it takes the first frame, which are
two walks, but they come to the same frame. Third, as long as the scopes of the
frames are the way outward from the current one, the walk along the scope tree
finds the frames in the order in which they lie on the stack, each scope has one
frame, and so reading and assigning a name are what they are for the tables of
values alone.

## Main definitions

* `Context.nest`: The tables of the frames.
* `Context.SameShape`: The same tree, and frames for the same scopes.
* `Context.Aligned`: The frames are for the scopes from the current one outward.
* `Run.Kept`: A relation that every single step of a run keeps.

## Theorems

* `Run.kept_runStatement`, `Run.kept_runBlock`: What every step keeps is kept by
  statements and blocks.
* `Run.keeps_runStatement`, `Run.keeps_runBlock`: Running keeps the shape.
* `Context.get?_eq_home?`: What is read is the value in the frame that would be
  assigned to.
* `Context.get?_of_aligned`, `Context.nest_assign?`: Reading and assigning in a
  context that is aligned.
-/

namespace Scriptlet

open Outcome

namespace Context

/-- The tables of the frames, without the scopes they are for. -/
def nest (context : Context) : Nest Value :=
  { top := context.top.values, below := context.below.map Frame.values }

/-- Two contexts with one tree, whose frames are for the same scopes. -/
structure SameShape (before after : Context) : Prop where
  scopes : after.scopes = before.scopes
  frames : after.frames.map Frame.scope = before.frames.map Frame.scope

/-- The frames are for the scopes from the current one outward, in this
    order. -/
def Aligned (context : Context) : Prop :=
  context.frames.map Frame.scope = context.scopes.ancestors context.currentScope

theorem layers_nest (context : Context) :
    context.nest.layers = context.frames.map Frame.values := rfl

theorem nest_leave (context : Context) : context.leave.nest = context.nest.leave := by
  rcases context with ⟨scopes, top, below, currentScope, sink, hcurrent⟩
  cases below with
  | nil => rfl
  | cons frame rest => rfl

theorem sink_leave (context : Context) : context.leave.sink = context.sink := by
  rw [leave]
  split
  · rfl
  · rfl

theorem sameShape_refl (context : Context) : SameShape context context := ⟨rfl, rfl⟩

theorem sameShape_trans {a b c : Context} (hab : SameShape a b) (hbc : SameShape b c) :
    SameShape a c :=
  ⟨hbc.scopes.trans hab.scopes, hbc.frames.trans hab.frames⟩

/-- The current scope is that of the top frame, so the frames tell which it is. -/
theorem currentScope_of_sameShape {before after : Context} (h : SameShape before after) :
    after.currentScope = before.currentScope := by
  have hframes := h.frames
  rw [frames, frames, List.map_cons, List.map_cons, List.cons.injEq] at hframes
  rw [after.current_top, before.current_top]
  exact hframes.1

theorem aligned_of_sameShape {before after : Context} (h : SameShape before after)
    (halign : before.Aligned) : after.Aligned := by
  rw [Aligned, h.frames, h.scopes, currentScope_of_sameShape h]
  exact halign

/-- What was entered and kept its shape has, once it is left, the shape that it
    had before. -/
theorem sameShape_leave {before after : Context} {scope : ScopeId}
    (h : SameShape (before.enter scope) after) : SameShape before after.leave := by
  have hframes := h.frames
  rw [frames, frames, List.map_cons, List.map_cons, List.cons.injEq] at hframes
  rcases hbelow : after.below with _ | ⟨frame, rest⟩
  -- There was a frame below the one that was entered, and it is not gone.
  · rw [hbelow] at hframes
    exact absurd hframes.2 (by simp only [enter, frames, List.map_nil, List.map_cons,
      reduceCtorEq, not_false_eq_true])
  · rw [hbelow] at hframes
    refine ⟨?_, ?_⟩
    · rw [leave, hbelow]
      exact h.scopes
    · rw [leave, hbelow]
      exact hframes.2

/-! ### Positions -/

/-- A change of one entry that a view does not see leaves the view of a list as
    it was. -/
theorem map_modify {α β : Type} {view : α → β} {change : α → α} {index : Nat} {entries : List α}
    (h : ∀ entry, entries[index]? = some entry → view (change entry) = view entry) :
    (entries.modify index change).map view = entries.map view := by
  refine List.ext_getElem? fun position => ?_
  rw [List.getElem?_map, List.getElem?_map, List.getElem?_modify]
  cases hentry : entries[position]? with
  | none => rfl
  | some entry =>
      by_cases hindex : index = position
      · subst hindex
        simp only [if_true, Functor.map, Option.map_some, h entry hentry]
      · simp only [if_neg hindex, Functor.map, Option.map_some]

/-- The newest frame of a scope is at a position if it is for the scope and no
    frame above it is. -/
theorem frameIndex?_eq_some {context : Context} {scope : ScopeId} {index : Nat} :
    context.frameIndex? scope = some index ↔
      ∃ frame, context.frames[index]? = some frame ∧ frame.scope = scope ∧
        ∀ earlier other, earlier < index → context.frames[earlier]? = some other →
          other.scope ≠ scope := by
  rw [frameIndex?, List.findIdx?_eq_some_iff_getElem]
  constructor
  · rintro ⟨hlt, hscope, hfirst⟩
    refine ⟨_, List.getElem?_eq_getElem hlt, beq_iff_eq.mp hscope, ?_⟩
    intro earlier other hearlier hother
    rcases List.getElem?_eq_some_iff.mp hother with ⟨_, rfl⟩
    exact fun hsame => hfirst earlier hearlier (beq_iff_eq.mpr hsame)
  · rintro ⟨frame, hhere, hscope, hnewest⟩
    rcases List.getElem?_eq_some_iff.mp hhere with ⟨hlt, rfl⟩
    refine ⟨hlt, beq_iff_eq.mpr hscope, fun earlier hearlier hsame => ?_⟩
    exact hnewest earlier _ hearlier
      (List.getElem?_eq_getElem (Nat.lt_trans hearlier hlt)) (beq_iff_eq.mp hsame)

theorem frames_bindAt (context : Context) (name : String) (value : Value) (index : Nat) :
    (context.bindAt name value index).frames =
      context.frames.modify index fun frame => frame.set name value := by
  cases index with
  | zero => rfl
  | succ index => rfl

theorem scopes_bindAt (context : Context) (name : String) (value : Value) (index : Nat) :
    (context.bindAt name value index).scopes = context.scopes := by
  cases index <;> rfl

theorem sink_bindAt (context : Context) (name : String) (value : Value) (index : Nat) :
    (context.bindAt name value index).sink = context.sink := by
  cases index <;> rfl

/-- Binding a name does not change which scope a frame is for. -/
theorem sameShape_bindAt (context : Context) (name : String) (value : Value) (index : Nat) :
    SameShape context (context.bindAt name value index) := by
  refine ⟨scopes_bindAt context name value index, ?_⟩
  rw [frames_bindAt]
  exact map_modify fun frame _ => rfl

theorem sameShape_assign? {before after : Context} {name : String} {value : Value}
    (h : before.assign? name value = some after) : SameShape before after := by
  rcases Option.map_eq_some_iff.mp h with ⟨index, _, rfl⟩
  exact sameShape_bindAt before name value index

theorem sink_assign? {before after : Context} {name : String} {value : Value}
    (h : before.assign? name value = some after) : after.sink = before.sink := by
  rcases Option.map_eq_some_iff.mp h with ⟨index, _, rfl⟩
  exact sink_bindAt before name value index

/-! ### Two ways to look for a name -/

/-- To take the first of some values that a list leads to is to take the value of
    the first entry that has one. -/
theorem findSome?_bind {α β γ : Type} (f : α → Option β) (g : β → Option γ) (entries : List α) :
    (entries.findSome? fun a => (f a).bind g) =
      ((entries.filterMap f).find? fun b => (g b).isSome).bind g := by
  induction entries with
  | nil => rfl
  | cons a rest ih =>
      rw [List.findSome?_cons]
      cases hf : f a with
      | none => rw [List.filterMap_cons_none hf, Option.bind_none, ih]
      | some b =>
          rw [List.filterMap_cons_some hf, Option.bind_some, List.find?_cons]
          cases hg : g b with
          | none => exact ih
          | some c => simp only [Option.isSome_some, Option.bind_some, hg]

/-- Reading and assigning look for a name in two ways, one for a value and one
    for a frame. Both come to the same frame: what is read is the value in the
    frame that would be assigned to. -/
theorem get?_eq_home? (context : Context) (name : String) :
    context.get? name = (context.home? name).bind fun index =>
      (context.frames[index]?).bind fun frame => frame.values.get? name := by
  let look (index : Nat) : Option Value :=
    (context.frames[index]?).bind fun frame => frame.values.get? name
  have hlook : (fun index => (look index).isSome) = fun index =>
      (context.frames[index]?).any fun frame => frame.values.contains name := by
    funext index
    exact Option.isSome_bind _ _
  rw [home?, ← hlook]
  exact findSome?_bind context.frameIndex? look _

/-- The frame in which a name is found has the name. -/
theorem contains_of_home? {context : Context} {name : String} {index : Nat}
    (h : context.home? name = some index) :
    ∃ frame, context.frames[index]? = some frame ∧ frame.values.contains name = true := by
  have hfound := List.find?_some h
  rw [Option.any_eq_true] at hfound
  exact hfound

theorem isSome_assign? (context : Context) (name : String) (value : Value) :
    (context.assign? name value).isSome = (context.get? name).isSome := by
  rw [assign?, Option.isSome_map, get?_eq_home?]
  cases hhome : context.home? name with
  | none => rfl
  | some index =>
      rcases contains_of_home? hhome with ⟨frame, hframe, hbound⟩
      rw [Option.bind_some, hframe, Option.bind_some]
      exact hbound.symm

/-! ### Where each scope has one frame -/

theorem nodup_of_aligned {context : Context} (h : context.Aligned) :
    (context.frames.map Frame.scope).Nodup := by
  rw [h]
  exact context.scopes.ancestors_nodup context.currentScope

/-- Where each scope has one frame, a frame is the newest of its scope. -/
theorem frameIndex?_of_aligned {context : Context} (h : context.Aligned) {index : Nat}
    {frame : Frame} (hframe : context.frames[index]? = some frame) :
    context.frameIndex? frame.scope = some index := by
  refine frameIndex?_eq_some.mpr ⟨frame, hframe, rfl, fun earlier other hearlier hother heq => ?_⟩
  -- A frame above it would be a second one for its scope.
  have hscopes : (context.frames.map Frame.scope)[earlier]? =
      (context.frames.map Frame.scope)[index]? := by
    rw [List.getElem?_map, List.getElem?_map, hother, hframe, Option.map_some, heq, Option.map_some]
  have hlt : earlier < (context.frames.map Frame.scope).length := by
    rw [List.length_map]
    exact (List.getElem?_eq_some_iff.mp hother).1
  have hsame := (List.getElem?_inj hlt (nodup_of_aligned h)).mp hscopes
  omega

/-- A name is read from the first frame that has it. -/
theorem get?_of_aligned {context : Context} (h : context.Aligned) (name : String) :
    context.get? name = context.nest.get? name := by
  have hway := h
  rw [Aligned] at hway
  rw [Nest.get?, layers_nest, List.findSome?_map, get?, ← hway, List.findSome?_map]
  rw [← List.head?_filterMap, ← List.head?_filterMap]
  refine congrArg List.head? (List.filterMap_congr fun frame hmem => ?_)
  rcases List.getElem?_of_mem hmem with ⟨index, hframe⟩
  simp only [Function.comp_apply, frameIndex?_of_aligned h hframe, bind, Option.bind_some, hframe]

/-- A name is found in the first frame that has it. -/
theorem home?_of_aligned {context : Context} (h : context.Aligned) (name : String) :
    context.home? name = context.frames.findIdx? fun frame => frame.values.contains name := by
  have hway := h
  rw [Aligned] at hway
  have hhas : ∀ frame ∈ context.frames,
      ((context.frameIndex? frame.scope).any fun index =>
        (context.frames[index]?).any fun frame => frame.values.contains name) =
      frame.values.contains name := by
    intro frame hmem
    rcases List.getElem?_of_mem hmem with ⟨index, hframe⟩
    rw [frameIndex?_of_aligned h hframe, Option.any_some, hframe, Option.any_some]
  rw [home?, ← hway, List.filterMap_map, List.find?_filterMap]
  simp only [Function.comp_apply]
  rw [List.find?_congr hhas, List.find?_eq_bind_findIdx?_getElem?]
  cases hindex : context.frames.findIdx? fun frame => frame.values.contains name with
  | none => rfl
  | some index =>
      have hframe := List.getElem?_eq_getElem (List.findIdx?_eq_some_iff_getElem.mp hindex).1
      rw [Option.bind_some, hframe, Option.bind_some, frameIndex?_of_aligned h hframe]

/-- To assign to the first table that has a name is to bind it in the first frame
    that has it. -/
theorem assignFirst?_values (name : String) (value : Value) (frames : List Frame) :
    Nest.assignFirst? name value (frames.map Frame.values) =
      (frames.findIdx? fun frame => frame.values.contains name).map fun index =>
        (frames.modify index fun frame => frame.set name value).map Frame.values := by
  induction frames with
  | nil => rfl
  | cons first rest ih =>
      rw [List.map_cons, Nest.assignFirst?, List.findIdx?_cons]
      cases first.values.contains name with
      | true => rfl
      | false =>
          simp only [Bool.false_eq_true, if_false]
          rw [ih, Option.map_map, Option.map_map]
          rfl

/-- A name is assigned in the first frame that has it. -/
theorem nest_assign? {context : Context} (h : context.Aligned) (name : String) (value : Value) :
    (context.assign? name value).map nest = context.nest.assign? name value := by
  -- A nest is known by its layers, and layers are what both sides change.
  have hinj : Function.Injective (Option.map (Nest.layers (α := Value))) :=
    Option.map_injective fun _ _ => Nest.layers_injective
  apply hinj
  rw [Nest.layers_assign?, layers_nest, assignFirst?_values, assign?,
    home?_of_aligned h, Option.map_map, Option.map_map]
  refine Option.map_congr fun index _ => ?_
  rw [Function.comp_apply, Function.comp_apply, layers_nest, frames_bindAt]

end Context

/-! ### What a run keeps -/

namespace Run

open Context

/-- A relation between contexts that can be chained and that every single step
    of a run keeps. -/
structure Kept (R : Context → Context → Prop) : Prop where
  refl : ∀ context, R context context
  trans : ∀ a b c, R a b → R b c → R a c
  declare : ∀ name value, Keeps R (Run.declare name value)
  assign : ∀ name value line, Keeps R (Run.assign name value line)
  print : ∀ value, Keeps R (Run.print value)
  inBlock : ∀ (site : Site) {statements : Run Unit},
    Keeps R statements → Keeps R (Run.inBlock site statements)

section Kept

variable {R : Context → Context → Prop}

theorem looks_eval (expr : Expr) : Looks (fun context => context.eval expr) (Run.eval expr) where
  found h := by simp only [Run.eval, h]
  missed h := by simp only [Run.eval, h]

theorem keeps_eval (hR : Kept R) (expr : Expr) : Keeps R (Run.eval expr) :=
  keeps_of_looks hR.refl (looks_eval expr)

theorem keeps_seq (hR : Kept R) {α β : Type} {x : Run α} {f : α → Run β} (hx : Keeps R x)
    (hf : ∀ a, Keeps R (f a)) : Keeps R (x >>= f) :=
  keeps_bind hR.trans hx hf

-- By recursion over the program, which puts the steps together in sequences and blocks.
mutual

theorem kept_runStatement (hR : Kept R) (site : Site) (index : Nat) :
    ∀ statement : Statement, Keeps R (runStatement site index statement)
  | .assign name (some declared) value line => by
      rw [runStatement]
      exact keeps_seq hR (keeps_eval hR value) fun assigned => hR.declare name assigned
  | .assign name none value line => by
      rw [runStatement]
      exact keeps_seq hR (keeps_eval hR value) fun assigned => hR.assign name assigned line
  | .branch condition whenTrue none line => by
      rw [runStatement]
      refine keeps_seq hR (keeps_eval hR condition) fun decided => ?_
      split
      · exact hR.inBlock _ (kept_runBlock hR _ whenTrue)
      · exact hR.refl
      · exact hR.refl
  | .branch condition whenTrue (some block) line => by
      rw [runStatement]
      refine keeps_seq hR (keeps_eval hR condition) fun decided => ?_
      split
      · exact hR.inBlock _ (kept_runBlock hR _ whenTrue)
      · exact hR.inBlock _ (kept_runBlock hR _ block)
      · exact hR.refl
  | .function name params body line => by
      rw [runStatement]
      exact hR.refl
  | .print value line => by
      rw [runStatement]
      exact keeps_seq hR (keeps_eval hR value) fun printed => hR.print printed
  | .empty => by
      rw [runStatement]
      exact hR.refl

theorem kept_runBlock (hR : Kept R) (site : Site) :
    ∀ block : Block, Keeps R (runBlock site block)
  | .mk statements line => by
      rw [runBlock]
      exact kept_runStatements hR site 0 statements

theorem kept_runStatements (hR : Kept R) (site : Site) :
    ∀ (index : Nat) (statements : List Statement),
      Keeps R (runStatements site index statements)
  | index, [] => by
      rw [runStatements]
      exact hR.refl
  | index, statement :: rest => by
      rw [runStatements]
      exact keeps_seq hR (kept_runStatement hR site index statement) fun _ =>
        kept_runStatements hR site (index + 1) rest

end

end Kept

/-! ### Running keeps the shape -/

theorem keeps_assign (name : String) (value : Value) (line : Nat) :
    Keeps SameShape (Run.assign name value line) := by
  intro context
  unfold Run.assign
  split
  · rename_i changed h
    exact sameShape_assign? h
  · exact sameShape_refl context

theorem keeps_print (value : Value) : Keeps SameShape (Run.print value) := by
  intro context
  unfold Run.print
  split
  · exact ⟨rfl, rfl⟩
  · exact ⟨rfl, rfl⟩

theorem keeps_inBlock (site : Site) {statements : Run Unit} (h : Keeps SameShape statements) :
    Keeps SameShape (Run.inBlock site statements) := by
  intro context
  unfold Run.inBlock
  cases context.scopes.blockScope? site with
  | none => exact h context
  | some scope =>
      simp only []
      -- Success or failure, the frame that was entered is left again.
      cases hs : statements (context.enter scope) with
      | ok u after => exact sameShape_leave (keeps_ok h hs)
      | error e after => exact sameShape_leave (keeps_error h hs)

/-- Only a block changes which frames there are, and it leaves as many as it
    found. -/
theorem kept_sameShape : Kept SameShape where
  refl := sameShape_refl
  trans _ _ _ := sameShape_trans
  declare _ _ _ := ⟨rfl, rfl⟩
  assign := keeps_assign
  print := keeps_print
  inBlock := keeps_inBlock

theorem keeps_runStatement (site : Site) (index : Nat) (statement : Statement) :
    Keeps SameShape (runStatement site index statement) :=
  kept_runStatement kept_sameShape site index statement

theorem keeps_runBlock (site : Site) (block : Block) : Keeps SameShape (runBlock site block) :=
  kept_runBlock kept_sameShape site block

end Run

end Scriptlet
