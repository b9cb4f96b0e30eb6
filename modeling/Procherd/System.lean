-- SUMMARY: The system of one run as a machine, and its initial configurations.
import Procherd.Supervisor
import Procherd.Cli

/-!
# System

One run from before its creation: the `start` command, the supervisor that it
launches, the supervisor's reader threads, and any number of clients, each with
a program of its own.
-/

namespace Procherd

open Interaction

inductive ClientResult where
  | waited (result : Except AppError WaitResult)
  | stopped (result : Except AppError StopResult)
  | observed (result : Except AppError (RunState × Bool))
  | paged (result : Except AppError (List Page))

abbrev ClientProgram := Prog ClientCmd ClientResult

/-- Run a client procedure as a program. -/
def Client.program {α : Type} (m : Client α) (f : Except AppError α → ClientResult) :
    ClientProgram :=
  (m ()).bind fun r => .ret (f r.1)

def Thread.Result : Thread → Type
  | .start => Except AppError StartResult
  | .supervisor => Except AppError Unit
  | .reader _ => Unit
  | .client _ => ClientResult

abbrev system [Toolchain] : Machine where
  Thread := Thread
  Cmd := Thread.Cmd
  Result := Thread.Result
  World := World
  Answer := Answer
  exec := exec

/-- What a run is started with. -/
structure Setup where
  options : StartOptions
  root : PathBuf
  registry : Option PortRegistry
  /-- What the process tree writes to its pipes. -/
  output : LogStream → Bytes
  clients : Nat → ClientProgram

namespace Setup

variable [Toolchain] (setup : Setup)

def runDir : PathBuf := setup.root.join setup.options.runId

def world : World :=
  { runDir := setup.runDir
    runId := setup.options.runId
    registry := setup.registry
    pipe := setup.output }

def thread : (t : Thread) → Prog t.Cmd t.Result
  | .start => (start setup.options ()).bind fun r => .ret r.1
  | .supervisor =>
    (supervise (setup.runDir.join "stop.request.json") ()).bind fun r => .ret r.1
  | .reader stream => captureStream stream
  | .client index => setup.clients index

def initial : system.Config := { world := setup.world, thread := setup.thread }

end Setup

end Procherd
