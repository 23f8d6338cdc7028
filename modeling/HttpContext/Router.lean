import HttpContext.Config.Basic
import HttpContext.Message.Method
/-!
Executors, which run work, and routers, which own the settings and the worker of their contexts.
Two handles mean the same executor when they carry the same number.
-/
namespace HttpContext

inductive Executor.Kind
  /-- runs the work on the thread that hands it over -/
  | inline
  | pool (threads : Nat)
  /-- the one thread of the callback engine -/
  | ioThread
  deriving Repr, DecidableEq

structure Executor where
  id : Nat
  name : String
  kind : Executor.Kind
  deriving Repr, DecidableEq

namespace Executor

def sameThread (id : Nat) : Executor := ⟨id, "same-thread", .inline⟩

/-- A pool has at least one thread. -/
def pool (id : Nat) (name : String) (threads : Nat) : Executor := ⟨id, name, .pool (max threads 1)⟩

def ioThread (id : Nat) (name : String) : Executor := ⟨id, name, .ioThread⟩

def same (a b : Executor) : Bool := a.id == b.id

end Executor

inductive Place
  | caller
  | threadOf (executor : Executor)
  deriving Repr, DecidableEq

namespace Place

def isIoThread : Place → Bool
  | caller => false
  | threadOf executor => executor.kind = .ioThread

/-- Where work runs that is handed to an executor from this place. -/
def handedTo (place : Place) (executor : Executor) : Place :=
  match executor.kind with
  | .inline => place
  | _ => threadOf executor

/-- The work runs on the very thread that hands it over: always when it runs inline, and when the
executor has no other thread to give it to. -/
def keepsThread (place : Place) (executor : Executor) : Bool :=
  match executor.kind with
  | .inline => true
  | .pool threads => threads == 1 && place == threadOf executor
  | .ioThread => place == threadOf executor

end Place

structure Route where
  method : Method
  pattern : String
  deriving Repr, DecidableEq

structure Router where
  config : Config
  worker : Executor
  logTarget : String := "engine_context"
  deriving Repr, DecidableEq

namespace Router

def defaultWorker (config : Config) (id : Nat) : Executor :=
  Executor.pool id "worker" config.workerThreads

/-- A router with a worker pool of its own; refuses settings that make no sense. -/
def create (config : Config) (workerId : Nat) : Except ConfigError Router := do
  config.validate
  return { config, worker := defaultWorker config workerId }

end Router

end HttpContext
