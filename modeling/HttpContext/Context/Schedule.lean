import HttpContext.Context.Script
/-!
Handlers on the executors that they are passed on to. Passing its context on is the last that an
action does; the steps behind that are the next action, which begins at once or is given to an
executor as a task and begins when the executor takes it up. `Script.run` is what comes of it.
-/
namespace HttpContext.Script

/-- How an action passes its context on: to an executor, the router's worker unless one is named, or
to nobody else. -/
inductive Pass
  | dispatch (executor : Option Executor)
  | detach
  deriving Repr, DecidableEq

/-- An action that was passed a context. -/
structure Task where
  pass : Pass
  hop : Context.Hop
  handler : Handler
  /-- what it finds when it begins -/
  finds : Reply
  steps : List Step

namespace Task

/-- The action, by the pass that it is for and what it does. -/
def call (task : Task) : Pass × List Step := (task.pass, task.steps)

/-- The executor that was given the action as a task. -/
def executor? (task : Task) : Option Executor :=
  match task.hop with
  | .inline => none
  | .submitted executor => some executor

def submission? (task : Task) : Option (Executor × List Step) :=
  task.executor?.map fun executor => (executor, task.steps)

/-- The action goes on after the handler that made it has returned. -/
def isHopOrDetach (task : Task) : Bool :=
  task.executor?.isSome || task.pass == .detach

end Task

/-- The actions of a handler after its first one, each with the pass that it is for. -/
def passes : List Step → List (Pass × List Step)
  | [] => []
  | .finish _ :: _ => []
  | .act _ :: rest => passes rest
  | .dispatch executor :: rest => (.dispatch executor, rest) :: passes rest
  | .detach :: rest => (.detach, rest) :: passes rest

/-- Passes the context on to an action with these steps. -/
def Handler.passOn (h : Handler) (pass : Pass) (steps : List Step) : Task :=
  match pass with
  | .dispatch executor =>
    let (hop, _) := match executor with
      | some executor => h.context.passTo executor
      | none => h.context.dispatch
    let (finds, handler) := dispatch h executor
    { pass, hop, handler, finds, steps }
  | .detach =>
    let (finds, handler) := detach h
    { pass, hop := .inline, handler, finds, steps }

/-- All that goes on at one moment, and all that has been. -/
structure Floor where
  /-- the actions at work, each with the steps that it has left -/
  running : List (Handler × List Step) := []
  /-- the tasks that executors were given and have not begun -/
  waiting : List Task := []
  /-- every task that was given to an executor -/
  submitted : List (Executor × List Step) := []
  /-- every action that has begun -/
  begun : List Task := []
  replies : List Reply := []
  /-- what became of the handlers whose request has ended -/
  finished : List Handler := []

namespace Floor

def begin (f : Floor) (task : Task) : Floor :=
  { f with
    running := f.running ++ [(task.handler, task.steps)]
    begun := f.begun ++ [task]
    replies := f.replies ++ [task.finds] }

/-- Begins an action at once, or gives it to the executor that it hops to. -/
def hand (f : Floor) (task : Task) : Floor :=
  match task.hop with
  | .inline => f.begin task
  | .submitted executor =>
    { f with
      waiting := f.waiting ++ [task]
      submitted := f.submitted ++ [(executor, task.steps)] }

/-- What the next step of an action brings, which is not among the running ones meanwhile. -/
def work (f : Floor) (h : Handler) : List Step → Floor
  | [] => { f with finished := f.finished ++ [{ h with context := h.context.drop }] }
  | .finish ending :: _ =>
    { f with
      replies := f.replies ++ [.ended]
      finished := f.finished ++ [{ h with context := ending.apply h.context }] }
  | .act action :: rest =>
    let (reply, h) := act h action
    { f with running := f.running ++ [(h, rest)], replies := f.replies ++ [reply] }
  | .dispatch executor :: rest => f.hand (h.passOn (.dispatch executor) rest)
  | .detach :: rest => f.hand (h.passOn .detach rest)

/-- What can happen next: some action at work takes a step, or an executor takes up some task that
it was given, which it then has no longer. -/
inductive Moves (f : Floor) : Floor → Prop
  | work {before after : List (Handler × List Step)} {h : Handler} {steps : List Step}
      (at_work : f.running = before ++ (h, steps) :: after) :
      Moves f ({ f with running := before ++ after }.work h steps)
  | takeUp {before after : List Task} {task : Task}
      (given : f.waiting = before ++ task :: after) :
      Moves f ({ f with waiting := before ++ after }.begin task)

end Floor

end HttpContext.Script
