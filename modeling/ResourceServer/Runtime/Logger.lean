import Mathlib.Data.List.Infix
import ResourceServer.Foundation.CString
import ResourceServer.Foundation.Transition

/-!
# Asynchronous logger

`Logger`: threads queue lines, one worker splices the queue into its pending list and
prints that outside the lock, and the destructor stops the worker. Each block under the
lock is one step; `enqueued` is a history of the lines in the order of their locks.
-/

namespace ResourceServer
namespace Runtime

open CString

inductive LogLevel where
  | info | error | debug
  deriving DecidableEq, Repr

/-- `level_to_string`. -/
def LogLevel.text : LogLevel → Bytes
  | .info => ascii "INFO"
  | .error => ascii "ERROR"
  | .debug => ascii "DEBUG"

/-- The line that `log` builds, with the text of `get_time()`. -/
def logLine (time : Bytes) (level : LogLevel) (message : Bytes) : Bytes :=
  ascii "[" ++ time ++ ascii "] [" ++ level.text ++ ascii "] " ++ message

/-- Where `worker_loop` stands. -/
inductive LogWorker where
  | waiting
  -- printing what is left of `pending`
  | printing (pending : List Bytes)
  | exited
  deriving DecidableEq, Repr

/-- Where the destructor stands, with the lines enqueued before it set `running = false`. -/
inductive Teardown where
  | alive
  | joining (before : List Bytes)
  | destroyed (before : List Bytes)
  deriving DecidableEq, Repr

/-- The lines enqueued before the stop. -/
def Teardown.before : Teardown → List Bytes
  | .alive => []
  | .joining lines | .destroyed lines => lines

structure Logger where
  logQueue : List Bytes
  running : Bool
  worker : LogWorker
  teardown : Teardown
  printed : List Bytes
  enqueued : List Bytes
  deriving DecidableEq, Repr

namespace Logger

def new : Logger where
  logQueue := []
  running := true
  worker := .waiting
  teardown := .alive
  printed := []
  enqueued := []

/-- What a step does. Any thread may log. -/
inductive Act where
  | log (time : Bytes) (level : LogLevel) (message : Bytes)
  | worker
  | destructor
  deriving DecidableEq, Repr

inductive Step : Logger → Act → Logger → Prop where
  | log (s : Logger) (time : Bytes) (level : LogLevel) (message : Bytes) :
      Step s (.log time level message)
        { s with
          logQueue := s.logQueue ++ [logLine time level message]
          enqueued := s.enqueued ++ [logLine time level message] }
  | exit {s : Logger} (hworker : s.worker = .waiting) (hrunning : s.running = false)
      (hqueue : s.logQueue = []) : Step s .worker { s with worker := .exited }
  -- with an empty queue the worker goes on waiting, or exits
  | splice {s : Logger} (hworker : s.worker = .waiting) (hqueue : s.logQueue ≠ []) :
      Step s .worker { s with worker := .printing s.logQueue, logQueue := [] }
  | print {s : Logger} {line : Bytes} {rest : List Bytes}
      (hworker : s.worker = .printing (line :: rest)) :
      Step s .worker { s with worker := .printing rest, printed := s.printed ++ [line] }
  | next {s : Logger} (hworker : s.worker = .printing []) : Step s .worker { s with worker := .waiting }
  | stop {s : Logger} (hteardown : s.teardown = .alive) :
      Step s .destructor { s with running := false, teardown := .joining s.enqueued }
  | join {s : Logger} {before : List Bytes} (hteardown : s.teardown = .joining before)
      (hworker : s.worker = .exited) : Step s .destructor { s with teardown := .destroyed before }

def pending (s : Logger) : List Bytes :=
  match s.worker with
  | .printing lines => lines
  | .waiting | .exited => []

structure Orderly (s : Logger) : Prop where
  order : s.printed ++ s.pending ++ s.logQueue = s.enqueued
  before : s.teardown.before <+: s.enqueued
  stopped : s.running = false → s.teardown ≠ .alive
  exited : s.worker = .exited → s.running = false
  /-- Behind the exit of the worker, all that was enqueued before the stop is printed. -/
  flushed : s.worker = .exited → s.teardown.before <+: s.printed
  destroyed : ∀ lines, s.teardown = .destroyed lines → s.worker = .exited

theorem Orderly.new : new.Orderly := ⟨rfl, List.nil_prefix, nofun, nofun, nofun, nofun⟩

theorem Orderly.step {s s' : Logger} {a : Act} (hs : s.Orderly) (hstep : Step s a s') : s'.Orderly := by
  obtain ⟨horder, hbefore, hstopped, hexited, hflushed, hdestroyed⟩ := hs
  -- until the worker has exited the destructor has not returned
  have hwaits (hworker : s.worker ≠ .exited) (w : LogWorker) (lines : List Bytes)
      (h : s.teardown = .destroyed lines) : w = .exited := absurd (hdestroyed lines h) hworker
  cases hstep with
  | log time level message =>
    refine ⟨?_, hbefore.trans (List.prefix_append _ _), hstopped, hexited, hflushed, hdestroyed⟩
    rw [← horder]
    simp [pending]
  | exit hworker hrunning hqueue =>
    have hall : s.printed = s.enqueued := by
      rw [← horder, hqueue]
      simp [pending, hworker]
    refine ⟨?_, hbefore, hstopped, fun _ => hrunning, fun _ => ?_, fun _ _ => rfl⟩
    · simp [pending, hqueue, hall]
    · rw [hall]
      exact hbefore
  | splice hworker hqueue =>
    refine ⟨?_, hbefore, hstopped, nofun, nofun, hwaits (by simp [hworker]) _⟩
    rw [← horder]
    simp [pending, hworker]
  | print hworker =>
    refine ⟨?_, hbefore, hstopped, nofun, nofun, hwaits (by simp [hworker]) _⟩
    rw [← horder]
    simp [pending, hworker]
  | next hworker =>
    refine ⟨?_, hbefore, hstopped, nofun, nofun, hwaits (by simp [hworker]) _⟩
    rw [← horder]
    simp [pending, hworker]
  | stop hteardown =>
    refine ⟨horder, List.prefix_refl _, fun _ => nofun, fun _ => rfl, fun hworker => ?_, nofun⟩
    exact absurd hteardown (hstopped (hexited hworker))
  | join hteardown hworker =>
    rw [hteardown] at hbefore hflushed
    exact ⟨horder, hbefore, fun _ => nofun, hexited, hflushed, fun _ _ => hworker⟩

/-- **Nothing lost, nothing reordered.** Printed, pending and queued lines are the
enqueued lines in their order, and the destructor returns behind the printing of all that
was enqueued before the stop. -/
theorem log_in_order (s : Logger) (hrun : Reaches Step new s) :
    s.printed ++ s.pending ++ s.logQueue = s.enqueued ∧
      ∀ before, s.teardown = .destroyed before → before <+: s.printed ∧ s.printed <+: s.enqueued := by
  have hs : s.Orderly := Reaches.invariant (I := Orderly) hrun (fun _ _ _ => Orderly.step) .new
  refine ⟨hs.order, fun before hteardown => ⟨?_, ?_⟩⟩
  · have hflushed := hs.flushed (hs.destroyed before hteardown)
    rw [hteardown] at hflushed
    exact hflushed
  · rw [← hs.order, List.append_assoc]
    exact List.prefix_append _ _

def startLine : Bytes := logLine (ascii "2024-05-01 12:00:00") .info (ascii "start")

def logged : Logger := { new with logQueue := [startLine], enqueued := [startLine] }

/-- The destructor has stopped the worker with the line still queued. -/
def stopping : Logger := { logged with running := false, teardown := .joining [startLine] }

def flushed : Logger :=
  { stopping with logQueue := [], worker := .exited, printed := [startLine], teardown := .destroyed [startLine] }

theorem flushed_in_order : [startLine] <+: flushed.printed := by
  have hlog : Step new (.log (ascii "2024-05-01 12:00:00") .info (ascii "start")) logged := .log ..
  have hstop : Step logged .destructor stopping := .stop rfl
  have hsplice : Step stopping .worker
      { stopping with worker := .printing [startLine], logQueue := [] } := .splice rfl nofun
  have hprint : Step { stopping with worker := .printing [startLine], logQueue := [] } .worker
      { stopping with worker := .printing [], logQueue := [], printed := [startLine] } := .print rfl
  have hnext : Step { stopping with worker := .printing [], logQueue := [], printed := [startLine] }
      .worker { stopping with logQueue := [], printed := [startLine] } := .next rfl
  have hexit : Step { stopping with logQueue := [], printed := [startLine] } .worker
      { stopping with logQueue := [], printed := [startLine], worker := .exited } := .exit rfl rfl rfl
  have hjoin : Step { stopping with logQueue := [], printed := [startLine], worker := .exited }
      .destructor flushed := .join rfl rfl
  exact ((log_in_order flushed (Runs.snoc (Runs.snoc (Runs.snoc (Runs.snoc (Runs.snoc (Runs.snoc
    (Runs.snoc .refl hlog trivial) hstop trivial) hsplice trivial) hprint trivial) hnext trivial)
    hexit trivial) hjoin trivial)).2 _ rfl).1

end Logger
end Runtime
end ResourceServer
