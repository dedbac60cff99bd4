import Scriptlet.Proofs.Run.Frames

/-!
# Laws of the Store

What it means to read and to assign a variable, whatever frames there are. The
frames of a context need not be those of the scopes around the current one: a
scope can be entered twice, and from anywhere. The tree decides all the same. A
frame counts if its scope is on the way outward from the current one and no
newer frame is for that scope; then it is visible. A name is read in the
visible frame that binds it whose scope is nearest.

Assigning changes just that frame, and declaring changes the top frame, which
is visible and for the nearest scope of all. Either way one name of one visible
frame is bound anew. So the laws of a store follow from two facts: the name is
then read there, and contexts whose visible frames say the same about a name
read it alike. The second one also tells that frames which are not visible are
not looked at.

A position counts frames from the newest one.

## Main definitions

* `Context.Visible`, `Context.Hidden`: Frames that count, and the others.
* `Context.ReadsAt`: The frame in which a name is read.
* `Context.Rebound`: One frame was replaced.
* `Context.StoreLaws`: The laws.

## Theorems

* `Context.get?_eq_some`, `Context.assign?_eq_some`: Reading and assigning in
  terms of the frame in which a name is read.
* `Context.get?_of_agrees`: A name depends on visible frames only.
* `variables_obey_store_laws`: Every context obeys the laws.
-/

namespace Scriptlet

theorem Frame.get?_set_self (frame : Frame) (name : String) (value : Value) :
    (frame.set name value).values.get? name = some value :=
  frame.values.get?_insert_self name value

theorem Frame.get?_set_other (frame : Frame) {name other : String} (value : Value)
    (h : other ≠ name) : (frame.set name value).values.get? other = frame.values.get? other :=
  frame.values.get?_insert_other value h

theorem Table.contains_of_get? {table : Table String Value} {name : String} {value : Value}
    (h : table.get? name = some value) : table.contains name = true := by
  rw [contains, h, Option.isSome_some]

namespace Context

/-! ### Visible frames -/

/-- A frame stands at a position, and no newer frame is for its scope. -/
structure NewestAt (context : Context) (position : Nat) (frame : Frame) : Prop where
  here : context.frames[position]? = some frame
  newest : ∀ earlier other, earlier < position → context.frames[earlier]? = some other →
    other.scope ≠ frame.scope

/-- A frame counts: it is the newest for its scope, and the scope is on the way
    outward from the current one. -/
structure Visible (context : Context) (position : Nat) (frame : Frame) : Prop extends
    NewestAt context position frame where
  onWay : frame.scope ∈ context.scopes.ancestors context.currentScope

/-- A frame does not count: its scope is not on the way outward from the current
    one, or a newer frame is for the same scope. -/
def Hidden (context : Context) (position : Nat) (frame : Frame) : Prop :=
  context.frames[position]? = some frame ∧
    (frame.scope ∉ context.scopes.ancestors context.currentScope ∨
      ∃ earlier other, earlier < position ∧ context.frames[earlier]? = some other ∧
        other.scope = frame.scope)

/-- A visible frame, where no visible frame for a nearer scope binds a name. -/
structure Foremost (context : Context) (name : String) (position : Nat) (frame : Frame) :
    Prop extends Visible context position frame where
  nearest : ∃ nearer outer,
    context.scopes.ancestors context.currentScope = nearer ++ frame.scope :: outer ∧
      ∀ earlier other, context.Visible earlier other → other.scope ∈ nearer →
        other.values.contains name = false

/-- A name is read in the frame at a position: the frame is visible and binds
    the name, and no visible frame for a nearer scope does. -/
structure ReadsAt (context : Context) (name : String) (position : Nat) (frame : Frame) :
    Prop extends Foremost context name position frame where
  bound : frame.values.contains name = true

variable {context before after : Context} {name : String} {position : Nat} {frame : Frame}

theorem not_hidden_of_visible (h : context.Visible position frame) :
    ¬ context.Hidden position frame := by
  rintro ⟨_, haway | ⟨earlier, other, hlt, hother, hscope⟩⟩
  · exact haway h.onWay
  · exact h.newest earlier other hlt hother hscope

/-- The newest frame for a scope is the one at the first position. -/
theorem frameIndex?_eq_newestAt {scope : ScopeId} :
    context.frameIndex? scope = some position ↔
      ∃ frame, context.NewestAt position frame ∧ frame.scope = scope := by
  rw [frameIndex?_eq_some]
  constructor
  · rintro ⟨frame, hhere, rfl, hnewest⟩
    exact ⟨frame, ⟨hhere, hnewest⟩, rfl⟩
  · rintro ⟨frame, hnewest, rfl⟩
    exact ⟨frame, hnewest.here, rfl, hnewest.newest⟩

/-- The frame on top is visible, and its scope is the nearest. -/
theorem foremost_top (context : Context) (name : String) :
    context.Foremost name 0 context.top where
  here := rfl
  newest earlier _ h := absurd h (Nat.not_lt_zero earlier)
  onWay := by
    rw [context.current_top, ScopeTree.ancestors]
    exact List.mem_cons_self
  nearest := by
    refine ⟨[], (context.scopes.ancestors context.currentScope).tail, ?_, ?_⟩
    · rw [context.current_top, ScopeTree.ancestors, List.tail_cons]
      rfl
    · intro _ _ _ hmem
      cases hmem

/-! ### Where a name is read -/

theorem home?_eq_some :
    context.home? name = some position ↔ ∃ frame, context.ReadsAt name position frame := by
  rw [home?, List.find?_filterMap, Option.bind_eq_some_iff]
  constructor
  · rintro ⟨scope, hfound, hindex⟩
    rcases frameIndex?_eq_newestAt.mp hindex with ⟨frame, hnewest, rfl⟩
    rcases List.find?_eq_some_iff_append.mp hfound with ⟨hbound, nearer, outer, hway, hnone⟩
    rw [hindex, Option.any_some, hnewest.here, Option.any_some] at hbound
    have honWay : frame.scope ∈ context.scopes.ancestors context.currentScope := by
      rw [hway]
      exact List.mem_append_right nearer List.mem_cons_self
    refine ⟨frame, ⟨⟨hnewest, honWay⟩, nearer, outer, hway, ?_⟩, hbound⟩
    intro earlier other hother hmem
    have hnot := hnone other.scope hmem
    rw [frameIndex?_eq_newestAt.mpr ⟨other, hother.toNewestAt, rfl⟩, Option.any_some, hother.here,
      Option.any_some, Bool.not_eq_true'] at hnot
    exact hnot
  · rintro ⟨frame, hreads⟩
    rcases hreads.nearest with ⟨nearer, outer, hway, hnone⟩
    have hindex := frameIndex?_eq_newestAt.mpr ⟨frame, hreads.toNewestAt, rfl⟩
    refine ⟨frame.scope, List.find?_eq_some_iff_append.mpr ⟨?_, nearer, outer, hway, ?_⟩, hindex⟩
    · rw [hindex, Option.any_some, hreads.here, Option.any_some]
      exact hreads.bound
    · intro scope hmem
      rw [Bool.not_eq_true']
      cases hother : context.frameIndex? scope with
      | none => rfl
      | some earlier =>
          rcases frameIndex?_eq_newestAt.mp hother with ⟨other, hnewest, rfl⟩
          have honWay : other.scope ∈ context.scopes.ancestors context.currentScope := by
            rw [hway]
            exact List.mem_append_left _ hmem
          rw [Option.any_some, hnewest.here, Option.any_some]
          exact hnone earlier other ⟨hnewest, honWay⟩ hmem

/-- The value of a name is the one in the frame in which it is read. -/
theorem get?_eq_some {value : Value} :
    context.get? name = some value ↔
      ∃ position frame, context.ReadsAt name position frame ∧
        frame.values.get? name = some value := by
  simp only [get?_eq_home?, Option.bind_eq_some_iff]
  constructor
  · rintro ⟨position, hhome, frame, hframe, hvalue⟩
    rcases home?_eq_some.mp hhome with ⟨found, hreads⟩
    cases Option.some.inj (hreads.here.symm.trans hframe)
    exact ⟨position, frame, hreads, hvalue⟩
  · rintro ⟨position, frame, hreads, hvalue⟩
    exact ⟨position, home?_eq_some.mpr ⟨frame, hreads⟩, frame, hreads.here, hvalue⟩

/-! ### Replacing a frame -/

/-- The frame at a position was replaced, and nothing else was changed. -/
structure Rebound (before after : Context) (position : Nat) (frame : Frame) : Prop where
  scopes : after.scopes = before.scopes
  frames : after.frames = before.frames.set position frame
  sink : after.sink = before.sink

/-- A name is assigned by binding it anew in the frame in which it is read. -/
theorem assign?_eq_some {value : Value} (h : before.assign? name value = some after) :
    ∃ position frame, before.ReadsAt name position frame ∧
      before.Rebound after position (frame.set name value) := by
  rcases Option.map_eq_some_iff.mp h with ⟨position, hhome, rfl⟩
  rcases home?_eq_some.mp hhome with ⟨frame, hreads⟩
  refine ⟨position, frame, hreads, scopes_bindAt before name value position, ?_,
    sink_bindAt before name value position⟩
  rw [frames_bindAt, List.modify_eq_set_getElem?, hreads.here]
  rfl

theorem rebound_declare (context : Context) (name : String) (value : Value) :
    context.Rebound (context.declare name value) 0 (context.top.set name value) :=
  ⟨rfl, rfl, rfl⟩

/-! ### Contexts that agree -/

/-- Two contexts with frames for the same scopes, whose visible frames say the
    same about a name. -/
structure Agrees (name : String) (before after : Context) : Prop where
  shape : SameShape before after
  same : ∀ position frame other, before.Visible position frame →
    after.frames[position]? = some other → other.values.get? name = frame.values.get? name

theorem sameShape_symm (h : SameShape before after) : SameShape after before :=
  ⟨h.scopes.symm, h.frames.symm⟩

theorem frame_of_sameShape (h : SameShape before after)
    (hhere : before.frames[position]? = some frame) :
    ∃ other, after.frames[position]? = some other ∧ other.scope = frame.scope := by
  have hscope := congrArg (fun scopes => scopes[position]?) h.frames
  simp only [List.getElem?_map, hhere, Option.map_some] at hscope
  exact Option.map_eq_some_iff.mp hscope

/-- Which frames are visible depends on their scopes alone. -/
theorem visible_of_sameShape (h : SameShape before after)
    (hvisible : before.Visible position frame) :
    ∃ other, after.Visible position other ∧ other.scope = frame.scope := by
  rcases frame_of_sameShape h hvisible.here with ⟨other, hother, hscope⟩
  refine ⟨other, ⟨⟨hother, ?_⟩, ?_⟩, hscope⟩
  · intro earlier newer hlt hnewer
    rcases frame_of_sameShape (sameShape_symm h) hnewer with ⟨found, hfound, hsame⟩
    rw [hscope, ← hsame]
    exact hvisible.newest earlier found hlt hfound
  · rw [h.scopes, currentScope_of_sameShape h, hscope]
    exact hvisible.onWay

theorem agrees_symm (h : Agrees name before after) : Agrees name after before := by
  refine ⟨sameShape_symm h.shape, fun position frame other hvisible hother => ?_⟩
  rcases visible_of_sameShape (sameShape_symm h.shape) hvisible with ⟨found, hfound, _⟩
  rw [hfound.here] at hother
  cases hother
  exact (h.same position other frame hfound hvisible.here).symm

theorem readsAt_of_agrees (h : Agrees name before after)
    (hreads : before.ReadsAt name position frame) :
    ∃ other, after.ReadsAt name position other ∧
      other.values.get? name = frame.values.get? name := by
  rcases visible_of_sameShape h.shape hreads.toVisible with ⟨other, hother, hscope⟩
  have hsame := h.same position frame other hreads.toVisible hother.here
  rcases hreads.nearest with ⟨nearer, outer, hway, hnone⟩
  refine ⟨other, ⟨⟨hother, nearer, outer, ?_, ?_⟩, ?_⟩, hsame⟩
  · rw [h.shape.scopes, currentScope_of_sameShape h.shape, hscope]
    exact hway
  -- A nearer frame that binds the name would bind it in the other context, too.
  · intro earlier newer hnewer hmem
    rcases visible_of_sameShape (sameShape_symm h.shape) hnewer with ⟨found, hfound, hfoundScope⟩
    have hnot := hnone earlier found hfound (hfoundScope ▸ hmem)
    rw [Table.contains, h.same earlier found newer hfound hnewer.here]
    exact hnot
  · rw [Table.contains, hsame]
    exact hreads.bound

/-- What a name means depends on what the visible frames say about it. -/
theorem get?_of_agrees (h : Agrees name before after) : after.get? name = before.get? name := by
  refine Option.ext fun value => ?_
  rw [get?_eq_some, get?_eq_some]
  constructor
  · rintro ⟨position, frame, hreads, hvalue⟩
    rcases readsAt_of_agrees (agrees_symm h) hreads with ⟨other, hother, hsame⟩
    exact ⟨position, other, hother, hsame.trans hvalue⟩
  · rintro ⟨position, frame, hreads, hvalue⟩
    rcases readsAt_of_agrees h hreads with ⟨other, hother, hsame⟩
    exact ⟨position, other, hother, hsame.trans hvalue⟩

/-! ### Binding a name anew -/

section Rebound

variable {value : Value}

theorem frame_of_rebound (h : before.Rebound after position frame)
    (hlt : position < before.frames.length) : after.frames[position]? = some frame := by
  rw [h.frames, List.getElem?_set_self hlt]

/-- All frames but one are as they were. -/
theorem frame_of_rebound_ne {other : Nat} (h : before.Rebound after position frame)
    (hne : other ≠ position) : after.frames[other]? = before.frames[other]? := by
  rw [h.frames, List.getElem?_set_ne hne.symm]

variable (h : before.Rebound after position (frame.set name value))

include h

/-- Binding a name does not change the scope of a frame. -/
theorem sameShape_of_rebound (hhere : before.frames[position]? = some frame) :
    SameShape before after := by
  refine ⟨h.scopes, List.ext_getElem? fun other => ?_⟩
  rw [List.getElem?_map, List.getElem?_map]
  by_cases hother : other = position
  · rw [hother, frame_of_rebound h (List.getElem?_eq_some_iff.mp hhere).1, hhere]
    rfl
  · rw [frame_of_rebound_ne h hother]

/-- Names that were not bound anew are read as before. -/
theorem get?_rebound_other (hhere : before.frames[position]? = some frame) {other : String}
    (hother : other ≠ name) : after.get? other = before.get? other := by
  refine get?_of_agrees ⟨sameShape_of_rebound h hhere, fun place found now hfound hnow => ?_⟩
  by_cases hplace : place = position
  · rw [hplace, frame_of_rebound h (List.getElem?_eq_some_iff.mp hhere).1] at hnow
    rw [hplace] at hfound
    have hsame := hfound.here
    rw [hhere] at hsame
    cases hsame
    cases hnow
    exact frame.get?_set_other value hother
  · rw [frame_of_rebound_ne h hplace, hfound.here] at hnow
    cases hnow
    rfl

/-- A name that was bound anew in a frame before which it is not found is read
    there. -/
theorem get?_rebound_self (hforemost : before.Foremost name position frame) :
    after.get? name = some value := by
  have hshape := sameShape_of_rebound h hforemost.here
  have hnow := frame_of_rebound h (List.getElem?_eq_some_iff.mp hforemost.here).1
  rcases visible_of_sameShape hshape hforemost.toVisible with ⟨other, hother, hscope⟩
  rcases Option.some.inj (hnow.symm.trans hother.here) with rfl
  rcases hforemost.nearest with ⟨nearer, outer, hway, hnone⟩
  refine get?_eq_some.mpr ⟨position, _, ⟨⟨hother, nearer, outer, ?_, ?_⟩, ?_⟩, ?_⟩
  · rw [hshape.scopes, currentScope_of_sameShape hshape]
    exact hway
  · intro earlier newer hnewer hmem
    -- No scope is on the way twice, so this is a frame that is as it was.
    have hne : earlier ≠ position := by
      rintro rfl
      rcases Option.some.inj (hnow.symm.trans hnewer.here) with rfl
      have hnodup := before.scopes.ancestors_nodup before.currentScope
      rw [hway] at hnodup
      exact (List.nodup_append.mp hnodup).2.2 _ hmem _ List.mem_cons_self rfl
    rcases visible_of_sameShape (sameShape_symm hshape) hnewer with ⟨found, hfound, _⟩
    have hsame := hnewer.here
    rw [frame_of_rebound_ne h hne, hfound.here] at hsame
    cases hsame
    exact hnone earlier newer hfound hmem
  · exact Table.contains_of_get? (frame.get?_set_self name value)
  · exact frame.get?_set_self name value

/-- A frame that is not visible is not the one in which a name was bound. -/
theorem hidden_of_rebound (hvisible : before.Visible position frame) {place : Nat} {unseen : Frame}
    (hhidden : before.Hidden place unseen) : after.frames[place]? = some unseen := by
  have hne : place ≠ position := by
    rintro rfl
    rcases Option.some.inj (hvisible.here.symm.trans hhidden.1) with rfl
    exact not_hidden_of_visible hvisible hhidden
  rw [frame_of_rebound_ne h hne]
  exact hhidden.1

end Rebound

/-! ### The laws -/

/-- Binds names in the top frame, one after the other. -/
def declareAll (context : Context) (bindings : List (String × Value)) : Context :=
  bindings.foldl (fun context binding => context.declare binding.1 binding.2) context

theorem declareAll_eq (context : Context) (bindings : List (String × Value)) :
    ∃ values, context.declareAll bindings =
      { context with top := { context.top with values } } := by
  induction bindings generalizing context with
  | nil => exact ⟨context.top.values, rfl⟩
  | cons binding rest ih => exact ih (context.declare binding.1 binding.2)

theorem leave_declareAll (context : Context) (scope : ScopeId)
    (bindings : List (String × Value)) :
    ((context.enter scope).declareAll bindings).leave = context := by
  rcases (context.enter scope).declareAll_eq bindings with ⟨values, hvalues⟩
  rw [hvalues]
  -- The scope that becomes current again is the one that was.
  rcases context with ⟨scopes, top, below, _, sink, rfl⟩
  rfl

theorem read_eq_ok {line : Nat} {value : Value} :
    context.read name line = .ok value ↔ context.get? name = some value := by
  rw [read]
  cases context.get? name with
  | none => simp only [reduceCtorEq]
  | some found => simp only [Except.ok.injEq, Option.some.injEq]

theorem read_of_none (h : context.get? name = none) (line : Nat) :
    context.read name line = .error (.unboundName name line) := by
  rw [read, h]

/-- The laws of reading and writing variables. -/
structure StoreLaws (context : Context) : Prop where
  /-- A variable is read in the frame that is visible, binds it, and is for the
      nearest scope. -/
  reads : ∀ name line value, context.read name line = .ok value ↔
    ∃ position frame, context.ReadsAt name position frame ∧ frame.values.get? name = some value
  /-- A variable can be read if and only if it can be assigned. -/
  together : ∀ name line value line', (∃ found, context.read name line = .ok found) ↔
    ∃ after, Run.assign name value line' context = .ok () after
  /-- An assignment gives the variable its value and leaves all others; it
      changes the frame in which the variable is read, and no other. -/
  assigned : ∀ name value line after, Run.assign name value line context = .ok () after →
    after.get? name = some value ∧ (∀ other, other ≠ name → after.get? other = context.get? other) ∧
      ∃ position frame, context.ReadsAt name position frame ∧
        context.Rebound after position (frame.set name value)
  /-- An assignment that fails changes nothing. -/
  refused : ∀ name value line e after, Run.assign name value line context = .error e after →
    e = .unboundName name line ∧ after = context
  /-- A declaration gives the variable its value and leaves all others. -/
  declared : ∀ name value, (context.declare name value).get? name = some value ∧
    ∀ other, other ≠ name → (context.declare name value).get? other = context.get? other
  /-- What is declared in a frame that was entered is gone once it is left, and
      all is as it was. -/
  restored : ∀ scope bindings, ((context.enter scope).declareAll bindings).leave = context
  /-- Frames that are not visible are not read. -/
  unread : ∀ other, SameShape context other →
    (∀ position frame, context.Visible position frame → other.frames[position]? = some frame) →
    ∀ name, other.get? name = context.get? name
  /-- A variable that only such frames bind can neither be read nor assigned. -/
  unbound : ∀ name, (∀ position frame, context.frames[position]? = some frame →
      frame.values.contains name = true → context.Hidden position frame) →
    ∀ value line, context.read name line = .error (.unboundName name line) ∧
      Run.assign name value line context = .error (.unboundName name line) context
  /-- Frames that are not visible are not changed. -/
  unchanged : ∀ position frame, context.Hidden position frame →
    (∀ name value line after, Run.assign name value line context = .ok () after →
      after.frames[position]? = some frame) ∧
    ∀ name value, (context.declare name value).frames[position]? = some frame

end Context

namespace Run

variable {context after : Context} {name : String} {value : Value} {line : Nat}

theorem assign_eq_ok :
    Run.assign name value line context = .ok () after ↔
      context.assign? name value = some after := by
  unfold Run.assign
  cases context.assign? name value with
  | none => simp only [reduceCtorEq]
  | some changed => simp only [EStateM.Result.ok.injEq, true_and, Option.some.injEq]

theorem assign_of_none (h : context.assign? name value = none) (line : Nat) :
    Run.assign name value line context = .error (.unboundName name line) context := by
  unfold Run.assign
  rw [h]

end Run

section Laws

open Context Run

/-- Every context obeys the laws, whatever was entered, left, declared, assigned
    and run before. -/
theorem variables_obey_store_laws (context : Context) : context.StoreLaws where
  reads name line value := read_eq_ok.trans get?_eq_some
  together name line value line' := by
    have hsome := context.isSome_assign? name value
    simp only [read_eq_ok, assign_eq_ok, ← Option.isSome_iff_exists, hsome]
  assigned name value line after h := by
    rcases assign?_eq_some (assign_eq_ok.mp h) with ⟨position, frame, hreads, hrebound⟩
    exact ⟨get?_rebound_self hrebound hreads.toForemost,
      fun _ => get?_rebound_other hrebound hreads.here, position, frame, hreads, hrebound⟩
  refused name value line e after h := by
    cases hassign : context.assign? name value with
    | none =>
        rw [assign_of_none hassign] at h
        cases h
        exact ⟨rfl, rfl⟩
    | some changed =>
        rw [assign_eq_ok.mpr hassign] at h
        cases h
  declared name value := by
    have hrebound := context.rebound_declare name value
    have hforemost := context.foremost_top name
    exact ⟨get?_rebound_self hrebound hforemost,
      fun _ => get?_rebound_other hrebound hforemost.here⟩
  restored := context.leave_declareAll
  unread other hshape hsame name := by
    refine get?_of_agrees ⟨hshape, fun position frame now hvisible hnow => ?_⟩
    rw [hsame position frame hvisible] at hnow
    cases hnow
    rfl
  unbound name hhidden value line := by
    have hnone : context.get? name = none := by
      cases hget : context.get? name with
      | none => rfl
      | some found =>
          rcases get?_eq_some.mp hget with ⟨position, frame, hreads, _⟩
          have hunseen := hhidden position frame hreads.here hreads.bound
          exact absurd hunseen (not_hidden_of_visible hreads.toVisible)
    refine ⟨read_of_none hnone line, assign_of_none ?_ line⟩
    rw [← Option.not_isSome_iff_eq_none, isSome_assign?, hnone]
    exact Bool.false_ne_true
  unchanged position frame hhidden := by
    refine ⟨fun name value line after h => ?_, fun name value => ?_⟩
    · rcases assign?_eq_some (assign_eq_ok.mp h) with ⟨place, found, hreads, hrebound⟩
      exact hidden_of_rebound hrebound hreads.toVisible hhidden
    · have hforemost := context.foremost_top name
      exact hidden_of_rebound (context.rebound_declare name value) hforemost.toVisible hhidden

-- A scope that is entered once more has a fresh frame, and the older one is not looked at.
example :
    let entered := (start (ScopeTree.initial.push globalScope "if").2 .unbounded).enter 1
    (entered.declare "x" (.bool true)).get? "x" = some (.bool true) ∧
      ((entered.declare "x" (.bool true)).enter 1).get? "x" = none := by
  decide +kernel

end Laws

end Scriptlet
