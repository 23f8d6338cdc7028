import HttpContext.Error
/-!
The settings that a router hands to its contexts.
-/
namespace HttpContext

/-- What the machine contributes to the defaults. -/
structure Machine where
  tempDir : String
  processors : Nat
  deriving Repr, DecidableEq

structure Config where
  bufferSize : Nat := 16 * 1024
  /-- zero is no limit -/
  maxRequestSize : UInt64 := 10 * 1024 * 1024
  /-- the directory that uploads are spooled to -/
  tmpdir : String
  workerThreads : Nat
  defaultCharset : String := "UTF-8"
  deriving Repr, DecidableEq

namespace Config

def default (machine : Machine) : Config :=
  { tmpdir := machine.tempDir, workerThreads := machine.processors }

/-- The first setting that makes no sense. -/
def validate (c : Config) : Except ConfigError Unit :=
  if c.bufferSize = 0 then .error .bufferSize
  else if c.workerThreads = 0 then .error .workerThreads
  else if c.defaultCharset.isEmpty then .error .defaultCharset
  else .ok ()

end Config

end HttpContext
