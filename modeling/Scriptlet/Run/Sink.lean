import Scriptlet.Run.Error

/-!
# Sinks

Where a program prints to. A sink is offered bytes and takes them, or it
refuses: then it takes only some of them, gives a reason, and the write fails.
What was taken is always the beginning of what was written.

When and why a sink refuses is its own affair, so a sink brings the rule with
it. The rule may look at all that the sink holds. A program stops at the first
refusal, so nothing that a sink does after it can matter.

## Main definitions

* `Refusal`: How a sink refuses what it is offered.
* `Sink`: The bytes taken so far, and when the sink refuses more.
* `Sink.write`: Takes a text.
-/

namespace Scriptlet

/-- How a sink refuses what it is offered: how many of the bytes it takes all
    the same, and why no more. -/
structure Refusal where
  taken : Nat
  reason : String

/-- A taker of bytes. -/
structure Sink where
  written : List UInt8
  /-- Whether the sink, holding some bytes, refuses others that it is offered. -/
  refusal? : (held offered : List UInt8) → Option Refusal

namespace Sink

/-- A sink that takes everything. -/
def unbounded : Sink := { written := [], refusal? := fun _ _ => none }

/-- The reason a full sink gives. -/
def fullReason : String := "sink is full"

/-- A sink that takes `capacity` bytes. -/
def bounded (capacity : Nat) : Sink :=
  { written := []
    refusal? := fun held offered =>
      if held.length + offered.length ≤ capacity then none
      else some { taken := capacity - held.length, reason := fullReason } }

/-- The bytes of a text in UTF-8. -/
def bytes (text : String) : List UInt8 := text.toUTF8.toList

/-- Takes a text, or as much of it as the sink does not refuse. -/
def write (sink : Sink) (text : String) : EStateM.Result RuntimeError Sink Unit :=
  let offered := bytes text
  match sink.refusal? sink.written offered with
  | none => .ok () { sink with written := sink.written ++ offered }
  | some refusal =>
    .error (.output refusal.reason)
      { sink with written := sink.written ++ offered.take refusal.taken }

/-- What was taken, as a text. A text that was cut inside a character has no
    reading. -/
def text? (sink : Sink) : Option String := String.fromUTF8? ⟨sink.written.toArray⟩

end Sink

end Scriptlet
