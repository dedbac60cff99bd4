import Scriptlet.Run.Sink
import Scriptlet.Scope.Tree
import Scriptlet.Value.Basic

/-!
# Contexts

The state of a run: the scope tree that names are resolved against, a stack of
frames for the scopes that were entered, the scope that is current, and the
sink. A frame holds the values bound in one entered scope. The stack is never
empty, because leaving the last frame does nothing. The current scope is kept
beside the stack, set anew whenever a frame is entered or left, and it is at all
times the scope of the top frame.

A name is looked for along the scope tree, from the current scope outward, and
in each scope only in the newest of its frames. Reading takes the first value
that is found on the way; assigning takes the first frame on the way that has
the name. So what counts is the tree and not the stack: a frame that was entered
later hides nothing unless its scope is on the way.

## Main definitions

* `Frame`: The values of one entered scope.
* `Context`: The state of a run.
* `Context.enter`, `Context.leave`: Push and pop a frame.
* `Context.get?`, `Context.declare`, `Context.assign?`: Read, bind and change
  a variable.
-/

namespace Scriptlet

/-- The values bound in one entered scope. -/
structure Frame where
  scope : ScopeId
  values : Table String Value

/-- A frame without values. -/
def Frame.fresh (scope : ScopeId) : Frame := { scope, values := .empty }

/-- A frame with a name bound to a value. -/
def Frame.set (frame : Frame) (name : String) (value : Value) : Frame :=
  { frame with values := frame.values.insert name value }

/-- The state of a run. -/
structure Context where
  scopes : ScopeTree
  /-- The frame that was entered last and not left. -/
  top : Frame
  /-- The frames below it, the newest first. -/
  below : List Frame
  /-- The scope from which names are looked for. -/
  currentScope : ScopeId
  sink : Sink
  /-- Whoever changes the top frame sets the current scope with it. -/
  current_top : currentScope = top.scope

namespace Context

/-- A context in the global frame, before anything has run. -/
def start (scopes : ScopeTree) (sink : Sink) : Context where
  scopes := scopes
  top := Frame.fresh globalScope
  below := []
  currentScope := globalScope
  sink := sink
  current_top := rfl

/-- All frames, the newest first. -/
def frames (context : Context) : List Frame := context.top :: context.below

/-- Pushes an empty frame for a scope and makes the scope current. -/
def enter (context : Context) (scope : ScopeId) : Context :=
  { context with
    top := Frame.fresh scope
    below := context.frames
    currentScope := scope
    current_top := rfl }

/-- Pops the top frame, unless it is the only one. The scope of the frame that
    is then on top becomes current. -/
def leave (context : Context) : Context :=
  match context.below with
  | [] => { context with currentScope := context.top.scope, current_top := rfl }
  | frame :: rest =>
    { context with top := frame, below := rest, currentScope := frame.scope, current_top := rfl }

/-- The position of the newest frame of a scope, counted from the top. -/
def frameIndex? (context : Context) (scope : ScopeId) : Option Nat :=
  context.frames.findIdx? fun frame => frame.scope == scope

/-- The value of a name: the first one that is found in the newest frames of the
    scopes from the current one outward. -/
def get? (context : Context) (name : String) : Option Value :=
  (context.scopes.ancestors context.currentScope).findSome? fun scope => do
    let index ← context.frameIndex? scope
    let frame ← context.frames[index]?
    frame.values.get? name

/-- Binds a name in the top frame, whether it had a value there or not. -/
def declare (context : Context) (name : String) (value : Value) : Context :=
  { context with top := context.top.set name value }

/-- Binds a name in the frame at a position. -/
def bindAt (context : Context) (name : String) (value : Value) : Nat → Context
  | 0 => { context with top := context.top.set name value }
  | index + 1 =>
    { context with below := context.below.modify index fun frame => frame.set name value }

/-- The position of the frame in which a name is found: the first one that has
    it, among the newest frames of the scopes from the current one outward. -/
def home? (context : Context) (name : String) : Option Nat :=
  let indices :=
    (context.scopes.ancestors context.currentScope).filterMap context.frameIndex?
  indices.find? fun index =>
    (context.frames[index]?).any fun frame => frame.values.contains name

/-- Gives a name a new value where it is found, if it is found. -/
def assign? (context : Context) (name : String) (value : Value) : Option Context :=
  (context.home? name).map (context.bindAt name value)

end Context

end Scriptlet
