import Scriptlet.Pipeline
import Scriptlet.Proofs.Run.Frames

/-!
# A Full Sink Only Truncates

What becomes of a run if its sink has room for so many bytes only. Two runs of
the same program are followed side by side, one into a sink that takes
everything and one into a sink that fills up. As long as all output fits, the
two are at the same point and differ in nothing but the sink. The print that
does not fit ends the second run; the first one goes on, but whatever it does
from there on, it can only add to its output. So the second sink holds the
beginning of what the first one holds, at every later time and at the end.

This needs no check of the program and no knowledge of scopes: nothing in a run
looks at the sink except printing.

## Main definitions

* `Sink.Fills`: A sink with room for a number of bytes.
* `Paired`: Two contexts that differ in the sink, and not in what was written.
* `Truncates`: What the outcome with all the output says about the other.
* `Cuts`: A computation that a full sink only truncates.

## Theorems

* `cuts_bind`, `cuts_print`, `cuts_inBlock`: Sequences, printing and blocks are
  cut.
* `cuts_runStatement`, `cuts_runStatements`: Whatever is run.
* `run_truncates`: A source run into a sink that fills up.
-/

namespace Scriptlet

open Outcome

variable {α β : Type} {capacity : Nat}

/-- A sink with room for `capacity` bytes. It takes what fits. Of what does not
    fit it takes the bytes that there is room for, and gives some reason. -/
def Sink.Fills (capacity : Nat) (sink : Sink) : Prop :=
  ∀ held offered, held.length ≤ capacity →
    (held.length + offered.length ≤ capacity → sink.refusal? held offered = none) ∧
    (capacity < held.length + offered.length →
      ∃ reason, sink.refusal? held offered = some ⟨capacity - held.length, reason⟩)

theorem fills_bounded (capacity : Nat) : (Sink.bounded capacity).Fills capacity := by
  intro held offered _
  refine ⟨fun hfits => ?_, fun hover => ⟨Sink.fullReason, ?_⟩⟩
  · simp only [Sink.bounded, if_pos hfits]
  · simp only [Sink.bounded, if_neg (Nat.not_le.mpr hover)]

/-- The context with another sink. -/
def Context.into (context : Context) (sink : Sink) : Context := { context with sink }

/-- Two contexts that differ in the sink alone. One sink takes everything, the
    other fills up; so far both have been written the same, and it fits. -/
structure Paired (capacity : Nat) (whole cut : Context) : Prop where
  same : cut = whole.into cut.sink
  endless : ∀ held offered, whole.sink.refusal? held offered = none
  fills : cut.sink.Fills capacity
  written : cut.sink.written = whole.sink.written
  fits : whole.sink.written.length ≤ capacity

/-- Beside an outcome with all the output stands the one of the sink that fills
    up. It is the same, up to the sink; or it is a failure to write, which left
    the beginning of the output that the other run has by now. -/
inductive Truncates (capacity : Nat) : EStateM.Result RuntimeError Context α →
    EStateM.Result RuntimeError Context α → Prop where
  | ok {a : α} {whole cut : Context} (paired : Paired capacity whole cut) :
      Truncates capacity (.ok a whole) (.ok a cut)
  | error {e : RuntimeError} {whole cut : Context} (paired : Paired capacity whole cut) :
      Truncates capacity (.error e whole) (.error e cut)
  | full {outcome : EStateM.Result RuntimeError Context α} {reason : String} {cut : Context}
      (beyond : capacity < (state outcome).sink.written.length)
      (beginning : cut.sink.written = (state outcome).sink.written.take capacity) :
      Truncates capacity outcome (.error (.output reason) cut)

/-- A context that was reached by writing more. -/
def Appends (before after : Context) : Prop := before.sink.written <+: after.sink.written

theorem appends_trans {a b c : Context} (hab : Appends a b) (hbc : Appends b c) : Appends a c :=
  List.IsPrefix.trans hab hbc

/-- A computation that takes no output back, and that a sink which fills up
    only truncates. -/
structure Cuts (capacity : Nat) (x : Run α) : Prop where
  appends : Keeps Appends x
  truncates : ∀ whole cut, Paired capacity whole cut → Truncates capacity (x whole) (x cut)

/-! ### Sequences -/

/-- What is full stays full, and holds the beginning of an output that only
    grows. -/
theorem truncates_later {whole cut : Context} {later : EStateM.Result RuntimeError Context α}
    {reason : String} (happends : Appends whole (state later))
    (hover : capacity < whole.sink.written.length)
    (hbeginning : cut.sink.written = whole.sink.written.take capacity) :
    Truncates capacity later (.error (.output reason) cut) := by
  rcases happends with ⟨more, hmore⟩
  refine .full ?_ ?_
  · rw [← hmore, List.length_append]
    omega
  · rw [hbeginning, ← hmore, List.take_append_of_le_length (by omega)]

theorem cuts_bind {x : Run α} {f : α → Run β} (hx : Cuts capacity x)
    (hf : ∀ a, Cuts capacity (f a)) : Cuts capacity (x >>= f) := by
  refine ⟨keeps_bind (R := Appends) (fun _ _ _ => appends_trans) hx.appends
    fun a => (hf a).appends, fun whole cut hpaired => ?_⟩
  have hfirst := hx.truncates whole cut hpaired
  rw [bind_apply, bind_apply]
  generalize hwhole : x whole = outcome at hfirst
  generalize x cut = other at hfirst
  cases hfirst with
  | @ok a whole' cut' hpaired' => exact (hf a).truncates whole' cut' hpaired'
  | error hpaired' => exact .error hpaired'
  | full hover hbeginning =>
      -- One run has stopped; the other may go on, and then it appends.
      cases outcome with
      | ok a whole' =>
          have happends : Appends whole' (state (f a whole')) := (hf a).appends whole'
          exact truncates_later happends hover hbeginning
      | error e whole' => exact .full hover hbeginning

theorem cuts_pure (a : α) : Cuts capacity (pure a : Run α) :=
  ⟨fun _ => List.prefix_rfl, fun _ _ hpaired => .ok hpaired⟩

theorem cuts_throw (e : RuntimeError) : Cuts capacity (throw e : Run α) :=
  ⟨fun _ => List.prefix_rfl, fun _ _ hpaired => .error hpaired⟩

/-! ### What does not print -/

/-- What a pair has in common can change, as long as both sinks are left
    alone. -/
theorem paired_change {whole cut changed : Context} (h : Paired capacity whole cut)
    (hsink : changed.sink = whole.sink) : Paired capacity changed (changed.into cut.sink) := by
  refine ⟨rfl, ?_, h.fills, ?_, ?_⟩
  · rw [hsink]
    exact h.endless
  · rw [hsink]
    exact h.written
  · rw [hsink]
    exact h.fits

theorem get?_into (context : Context) (sink : Sink) (name : String) :
    (context.into sink).get? name = context.get? name := rfl

theorem eval_into (context : Context) (sink : Sink) (expr : Expr) :
    (context.into sink).eval expr = context.eval expr := by
  induction expr with
  | number value line => rfl
  | literal value line => rfl
  | var name line => simp only [Context.eval, Context.read, get?_into]
  | arith op left right line ihl ihr => simp only [Context.eval, ihl, ihr]
  | signed sign operand line ih => simp only [Context.eval, ih]
  | compare order left right line ihl ihr => simp only [Context.eval, ihl, ihr]

theorem cuts_eval (expr : Expr) : Cuts capacity (Run.eval expr) := by
  refine ⟨fun context => ?_, fun whole cut hpaired => ?_⟩
  · unfold Run.eval
    split
    · exact List.prefix_rfl
    · exact List.prefix_rfl
  · have hsame : cut.eval expr = whole.eval expr := by
      rw [hpaired.same, eval_into]
    unfold Run.eval
    rw [hsame]
    cases whole.eval expr with
    | ok value => exact .ok hpaired
    | error e => exact .error hpaired

theorem cuts_declare (name : String) (value : Value) : Cuts capacity (Run.declare name value) := by
  refine ⟨fun context => List.prefix_rfl, fun whole cut hpaired => ?_⟩
  have hchanged : Paired capacity (whole.declare name value)
      ((whole.declare name value).into cut.sink) := paired_change hpaired rfl
  rw [hpaired.same]
  exact .ok hchanged

/-- Assignment changes frames, and which frame it changes is not a matter of
    the sink. -/
theorem assign?_into (context : Context) (sink : Sink) (name : String) (value : Value) :
    (context.into sink).assign? name value =
      (context.assign? name value).map fun changed => changed.into sink := by
  have hhome : (context.into sink).home? name = context.home? name := rfl
  rw [Context.assign?, Context.assign?, hhome, Option.map_map]
  congr 1
  funext index
  cases index <;> rfl

theorem cuts_assign (name : String) (value : Value) (line : Nat) :
    Cuts capacity (Run.assign name value line) := by
  refine ⟨fun context => ?_, fun whole cut hpaired => ?_⟩
  · unfold Run.assign
    cases hassign : context.assign? name value with
    | none => exact List.prefix_rfl
    | some changed =>
        have hsink : changed.sink = context.sink := Context.sink_assign? hassign
        change context.sink.written <+: changed.sink.written
        exact hsink ▸ List.prefix_rfl
  · unfold Run.assign
    rw [hpaired.same, assign?_into]
    cases hassign : whole.assign? name value with
    | none =>
        rw [Option.map_none, ← hpaired.same]
        exact .error hpaired
    | some changed =>
        rw [Option.map_some]
        exact .ok (paired_change hpaired (Context.sink_assign? hassign))

/-! ### Printing -/

/-- A write adds to what a sink holds, be it all of the text or some of it. -/
theorem written_write (sink : Sink) (text : String) :
    sink.written <+: (state (sink.write text)).written := by
  unfold Sink.write
  simp only []
  split
  · exact List.prefix_append _ _
  · exact List.prefix_append _ _

theorem write_of_accepted {sink : Sink} {text : String}
    (h : sink.refusal? sink.written (Sink.bytes text) = none) :
    sink.write text = .ok () { sink with written := sink.written ++ Sink.bytes text } := by
  simp only [Sink.write, h]

theorem write_of_refused {sink : Sink} {text reason : String} {taken : Nat}
    (h : sink.refusal? sink.written (Sink.bytes text) = some ⟨taken, reason⟩) :
    sink.write text = .error (.output reason)
      { sink with written := sink.written ++ (Sink.bytes text).take taken } := by
  simp only [Sink.write, h]

/-- The print that still fits is the same on both sides. The first one that
    does not fit fills the sink, and is a failure. -/
theorem cuts_print (value : Value) : Cuts capacity (Run.print value) := by
  refine ⟨fun context => ?_, fun whole cut hpaired => ?_⟩
  · have hwritten := written_write context.sink (value.text ++ "\n")
    unfold Run.print
    cases hwrite : context.sink.write (value.text ++ "\n") with
    | ok u sink =>
        rw [hwrite] at hwritten
        exact hwritten
    | error e sink =>
        rw [hwrite] at hwritten
        exact hwritten
  · have haccepted := hpaired.endless whole.sink.written (Sink.bytes (value.text ++ "\n"))
    have hheld : cut.sink.written.length ≤ capacity := by
      rw [hpaired.written]
      exact hpaired.fits
    have hfills := hpaired.fills cut.sink.written (Sink.bytes (value.text ++ "\n")) hheld
    unfold Run.print
    rw [write_of_accepted haccepted]
    by_cases hroom : cut.sink.written.length + (Sink.bytes (value.text ++ "\n")).length ≤ capacity
    · rw [write_of_accepted (hfills.1 hroom), hpaired.same]
      refine .ok ⟨rfl, hpaired.endless, hpaired.fills, ?_, ?_⟩
      · simp only [Context.into, hpaired.written]
      · rw [← hpaired.written, List.length_append]
        exact hroom
    · rcases hfills.2 (Nat.not_le.mp hroom) with ⟨reason, hrefused⟩
      rw [write_of_refused hrefused]
      rw [hpaired.written] at hroom hheld
      refine .full ?_ ?_
      · simp only [state, List.length_append]
        omega
      · simp only [state, hpaired.written, List.take_append, List.take_of_length_le hheld]

/-! ### Blocks -/

theorem leave_into (context : Context) (sink : Sink) :
    (context.into sink).leave = context.leave.into sink := by
  rcases context with ⟨scopes, top, below, old⟩
  cases below with
  | nil => rfl
  | cons frame rest => rfl

theorem paired_leave {whole cut : Context} (h : Paired capacity whole cut) :
    Paired capacity whole.leave cut.leave := by
  rw [h.same, leave_into]
  exact paired_change h (Context.sink_leave whole)

theorem truncates_leave {outcome other : EStateM.Result RuntimeError Context α}
    (h : Truncates capacity outcome other) :
    Truncates capacity (mapState Context.leave outcome) (mapState Context.leave other) := by
  cases h with
  | ok hpaired => exact .ok (paired_leave hpaired)
  | error hpaired => exact .error (paired_leave hpaired)
  | full hover hbeginning =>
      refine .full ?_ ?_
      · rw [state_mapState, Context.sink_leave]
        exact hover
      · rw [state_mapState, Context.sink_leave, Context.sink_leave]
        exact hbeginning

/-- A block for which a scope is recorded is run in a frame for it, and the
    frame is left however that ends. -/
theorem inBlock_of_blockScope? {site : Site} {scope : ScopeId} {context : Context}
    (statements : Run Unit) (h : context.scopes.blockScope? site = some scope) :
    Run.inBlock site statements context =
      mapState Context.leave (statements (context.enter scope)) := by
  unfold Run.inBlock
  rw [h]
  simp only []
  cases statements (context.enter scope) with
  | ok u after => rfl
  | error e after => rfl

/-- A block enters and leaves a frame, whichever sink there is. -/
theorem cuts_inBlock (site : Site) {statements : Run Unit} (h : Cuts capacity statements) :
    Cuts capacity (Run.inBlock site statements) := by
  refine ⟨fun context => ?_, fun whole cut hpaired => ?_⟩
  · cases hscope : context.scopes.blockScope? site with
    | none =>
        rw [Run.inBlock, hscope]
        exact h.appends context
    | some scope =>
        rw [inBlock_of_blockScope? statements hscope, state_mapState, Appends,
          Context.sink_leave]
        exact h.appends (context.enter scope)
  · have hscopes : cut.scopes = whole.scopes := by
      rw [hpaired.same]
      rfl
    cases hscope : whole.scopes.blockScope? site with
    | none =>
        rw [Run.inBlock, Run.inBlock, hscopes, hscope]
        exact h.truncates whole cut hpaired
    | some scope =>
        have hentered : Paired capacity (whole.enter scope) (cut.enter scope) := by
          have hchanged : Paired capacity (whole.enter scope) ((whole.enter scope).into cut.sink) :=
            paired_change hpaired rfl
          rw [hpaired.same]
          exact hchanged
        rw [inBlock_of_blockScope? statements hscope,
          inBlock_of_blockScope? statements (hscopes ▸ hscope)]
        exact truncates_leave (h.truncates _ _ hentered)

/-! ### Programs -/

-- By recursion over the program: every part is cut, and sequences and blocks hand that on.
mutual

theorem cuts_runStatement (site : Site) (index : Nat) :
    ∀ statement : Statement, Cuts capacity (runStatement site index statement)
  | .assign name (some declared) value line => by
      rw [runStatement]
      exact cuts_bind (cuts_eval value) fun assigned => cuts_declare name assigned
  | .assign name none value line => by
      rw [runStatement]
      exact cuts_bind (cuts_eval value) fun assigned => cuts_assign name assigned line
  | .branch condition whenTrue none line => by
      rw [runStatement]
      refine cuts_bind (cuts_eval condition) fun decided => ?_
      split
      · exact cuts_inBlock _ (cuts_runBlock _ whenTrue)
      · exact cuts_pure ()
      · exact cuts_throw _
  | .branch condition whenTrue (some block) line => by
      rw [runStatement]
      refine cuts_bind (cuts_eval condition) fun decided => ?_
      split
      · exact cuts_inBlock _ (cuts_runBlock _ whenTrue)
      · exact cuts_inBlock _ (cuts_runBlock _ block)
      · exact cuts_throw _
  | .function name params body line => by
      rw [runStatement]
      exact cuts_pure ()
  | .print value line => by
      rw [runStatement]
      exact cuts_bind (cuts_eval value) fun printed => cuts_print printed
  | .empty => by
      rw [runStatement]
      exact cuts_pure ()

theorem cuts_runBlock (site : Site) : ∀ block : Block, Cuts capacity (runBlock site block)
  | .mk statements line => by
      rw [runBlock]
      exact cuts_runStatements site 0 statements

theorem cuts_runStatements (site : Site) :
    ∀ (index : Nat) (statements : List Statement),
      Cuts capacity (runStatements site index statements)
  | index, [] => by
      rw [runStatements]
      exact cuts_pure ()
  | index, statement :: rest => by
      rw [runStatements]
      exact cuts_bind (cuts_runStatement site index statement) fun _ =>
        cuts_runStatements site (index + 1) rest

end

/-! ### Sources -/

/-- A program run from the start into a sink that fills up, beside its run into
    one that takes everything. -/
theorem truncates_execute (program : Block) (scopes : ScopeTree) {sink : Sink}
    (hempty : sink.written = []) (hfills : sink.Fills capacity) :
    Truncates capacity (execute program scopes .unbounded) (execute program scopes sink) := by
  have hpaired : Paired capacity (Context.start scopes .unbounded) (Context.start scopes sink) := by
    refine ⟨rfl, fun _ _ => rfl, hfills, hempty, Nat.zero_le _⟩
  exact (cuts_runBlock (.root 0) program).truncates _ _ hpaired

/-- Run into a sink that has room for `capacity` bytes and fails behind them, a
    source writes the first `capacity` bytes of all that it has to write. If
    that is all of it, the run ends as it ends with room enough. Otherwise it
    ends with the failure to write, whatever would have come later. -/
theorem run_truncates (source : String) {sink : Sink} (hempty : sink.written = [])
    (hfills : sink.Fills capacity) :
    (run source sink).2.written = (run source .unbounded).2.written.take capacity ∧
    ((run source .unbounded).2.written.length ≤ capacity →
      (run source sink).1 = (run source .unbounded).1) ∧
    (capacity < (run source .unbounded).2.written.length →
      ∃ reason, (run source sink).1 = .error (.runtime (.output reason))) := by
  unfold run
  cases load source with
  | error e =>
      -- Refused: nothing is written into either sink.
      refine ⟨?_, fun _ => rfl, fun hover => ?_⟩
      · simp only [hempty, Sink.unbounded, List.take_nil]
      · exact absurd hover (Nat.not_lt_zero _)
  | ok loaded =>
      rcases loaded with ⟨program, scopes⟩
      have htruncates := truncates_execute program scopes hempty hfills
      simp only []
      generalize execute program scopes .unbounded = outcome at htruncates
      generalize execute program scopes sink = other at htruncates
      cases htruncates with
      | ok hpaired =>
          refine ⟨?_, fun _ => rfl, fun hover => absurd hpaired.fits (Nat.not_le.mpr hover)⟩
          simp only [hpaired.written, List.take_of_length_le hpaired.fits]
      | error hpaired =>
          refine ⟨?_, fun _ => rfl, fun hover => absurd hpaired.fits (Nat.not_le.mpr hover)⟩
          simp only [hpaired.written, List.take_of_length_le hpaired.fits]
      | @full _ reason cut hover hbeginning =>
          cases outcome with
          | ok u whole =>
              exact ⟨hbeginning, fun hfits => absurd hover (Nat.not_lt.mpr hfits),
                fun _ => ⟨reason, rfl⟩⟩
          | error e whole =>
              exact ⟨hbeginning, fun hfits => absurd hover (Nat.not_lt.mpr hfits),
                fun _ => ⟨reason, rfl⟩⟩

/-- A source that prints twice inside a branch, and behind it leaves the range
    of integers. -/
def ledgerSource : String :=
  "x : int = 12; if (x > 0) \x7b print(x); print(345) \x7d print(x + 9223372036854775807)"

/-- `ledgerSource` writes seven bytes before it fails. With room for seven it
    fails as it does with room enough; with room for five the second number is
    cut, and the run ends there. -/
theorem run_truncates_ledgerSource :
    check ledgerSource = .ok () ∧
    (run ledgerSource (.bounded 7)).1 = .error (.runtime (.overflow 1)) ∧
    (run ledgerSource (.bounded 5)).2.written = Sink.bytes "12\n34" ∧
    ∃ reason, (run ledgerSource (.bounded 5)).1 = .error (.runtime (.output reason)) := by
  have haccepted : check ledgerSource = .ok () := by decide +kernel
  have hwritten : (run ledgerSource .unbounded).2.written = Sink.bytes "12\n345\n" := by
    decide +kernel
  have hfails : (run ledgerSource .unbounded).1 = .error (.runtime (.overflow 1)) := by
    decide +kernel
  have hfirst : (Sink.bytes "12\n345\n").take 5 = Sink.bytes "12\n34" := by decide +kernel
  have hlength : (Sink.bytes "12\n345\n").length = 7 := by decide +kernel
  have hroomy := run_truncates ledgerSource rfl (fills_bounded 7)
  have htight := run_truncates ledgerSource rfl (fills_bounded 5)
  rw [hwritten] at hroomy htight
  refine ⟨haccepted, ?_, ?_, ?_⟩
  · rw [hroomy.2.1 (by omega), hfails]
  · rw [htight.1, hfirst]
  · exact htight.2.2 (by omega)

end Scriptlet
