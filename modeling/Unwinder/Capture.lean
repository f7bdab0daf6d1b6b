import Unwinder.Capture.Request
import Unwinder.Capture.Walk
import Unwinder.Pool
import Unwinder.Target.Session

/-!
# `Unwinder.Capture` — captures against a pool of modules

A capture takes the module of its request from the pool, walks the stack, and gives the module back. Without a
memory of the caller's own it may attach to the process itself, for the time of the walk.

## Contents
- **Contexts.** `Settings` and `Context`, which outlive single captures.
- **Reports.** `Report` is what a capture reports, `Captured` that and everything it may have changed.
- **Captures.** `Context.capture`, and `missing` for callers that may lack a context or a request.
-/

namespace Unwinder

/-! ## Contexts -/

/-- The options of a context. -/
structure Settings where
  /-- Number of modules kept; zero counts as one. -/
  capacity : Nat
  /-- Whether captures may attach to processes. -/
  attaches : Bool
  deriving DecidableEq

/-- The number of modules kept when nothing else is asked for. -/
def defaultCapacity : Nat := 16

/-- What outlives a single capture. A context that has been shut down has no pool. -/
structure Context where
  settings : Settings
  pool : Option (Pool Module)

namespace Context

/-- A context without modules. -/
def ofSettings (settings : Settings) : Context := ⟨settings, some (Pool.ofCapacity (max settings.capacity 1))⟩

/-- Drops every module; later captures fail. -/
def shutDown (context : Context) : Context := { context with pool := none }

/-- Whether the context has been shut down. -/
def isShutDown (context : Context) : Bool := context.pool.isNone

end Context

/-! ## Reports -/

/-- What a capture reports. A capture that failed before a walk has no reason for its end. -/
structure Report where
  status : Status
  written : Nat
  ending : Option Ending
  deriving DecidableEq

/-- The report of a failure. -/
def Report.failed (e : Error) : Report := ⟨e.status, 0, none⟩

variable {κ σ : Type}

/-- A report, with the buffer, the context, the system and the caller's memory after the capture. -/
structure Captured (κ σ : Type) where
  report : Report
  frames : List Frame
  context : Context
  kernel : κ
  memory : σ

/-! ## Captures -/

/-- Attaches to the process of a request, when there is a process and something to read it for. -/
def Context.attach (context : Context) (kernel : Kernel κ) (request : Request) (hasMemory : Bool) (room : Nat)
    (k : κ) : Option (Except Error Session) × κ :=
  if !hasMemory && context.settings.attaches && 0 < request.pid && 1 < room then
    let (session, k) := Session.attach kernel context.settings.attaches request.pid request.tid k
    (some session, k)
  else (none, k)

/-- The session that an attempt to attach has opened. -/
def openedSession (attempt : Option (Except Error Session)) : Option Session := attempt.bind (·.toOption)

/-- The outcome of a walk that succeeded: that of the attempt to attach, if there was one. -/
def outcome (attempt : Option (Except Error Session)) : Status :=
  match attempt with
  | some (.error e) => e.status
  | _ => .ok

/-- The end of a walk, with the system, the session and the caller's memory after it. -/
structure WalkEnd (κ σ : Type) where
  walked : Walked Unit
  session : Option Session
  kernel : κ
  memory : σ

/-- A walk without its memory. -/
def Walked.dropMemory (w : Walked σ) : Walked Unit := { w with memory := () }

/-- Walks with the caller's memory, else with the session's, else without one. -/
def walkWith (kernel : Kernel κ) (m : Module) (path : Path) (source : Option (WordSource σ))
    (session : Option Session) (regs : RegisterSet) (buffer : List Frame) (k : κ) (memory : σ) : WalkEnd κ σ :=
  match source, session with
  | some words, session =>
      let w := walk m path (some words) regs buffer memory
      ⟨w.dropMemory, session, k, w.memory⟩
  | none, some s =>
      let w := walk m path (some (Session.source kernel)) regs buffer (s, k)
      ⟨w.dropMemory, some w.memory.1, w.memory.2, memory⟩
  | none, none =>
      let w := walk m path (none : Option (WordSource Unit)) regs buffer ()
      ⟨w.dropMemory, none, k, memory⟩

/-- Gives a session up, if there is one. -/
def dropSession (kernel : Kernel κ) (session : Option Session) (k : κ) : κ :=
  match session with
  | some s => s.drop kernel k
  | none => k

/-- Lets the thread of a session go and gives the session up, if there is one. -/
def endSession (kernel : Kernel κ) (session : Option Session) (k : κ) : κ :=
  match session with
  | some s =>
      let (s, k) := s.detach kernel k
      s.drop kernel k
  | none => k

/-- Unwinds a request, with the caller's memory if there is one, and writes the frames into a buffer. -/
def Context.capture (context : Context) (kernel : Kernel κ) (files : FileSystem) (request : Request)
    (source : Option (WordSource σ)) (buffer : List Frame) (k : κ) (memory : σ) : Captured κ σ :=
  match context.pool with
  | none => ⟨.failed (.misuse .shutDown), buffer, context, k, memory⟩
  | some pool =>
      if request.module.isEmpty then ⟨.failed (.misuse .noPath), buffer, context, k, memory⟩
      else if buffer.isEmpty then ⟨.failed (.misuse .noFrames), buffer, context, k, memory⟩
      else
        let (attempt, k) := context.attach kernel request source.isSome buffer.length k
        let session := openedSession attempt
        match pool.acquire (Module.load files) request.module with
        | (.error e, pool) =>
            ⟨.failed e, buffer, { context with pool := some pool }, dropSession kernel session k, memory⟩
        | (.ok handle, pool) =>
            let found := do
              let m ← pool.get handle
              let path ← pool.pathOf handle
              return (m, path)
            let context := { context with pool := some (pool.release handle).2 }
            match found with
            | .error e => ⟨.failed e, buffer, context, endSession kernel session k, memory⟩
            | .ok (m, path) =>
                let last := walkWith kernel m path source session request.registers buffer k memory
                let k := endSession kernel last.session last.kernel
                match last.walked.ending with
                | .error e => ⟨.failed e, last.walked.frames, context, k, last.memory⟩
                | .ok ending =>
                    ⟨⟨outcome attempt, last.walked.written, some ending⟩, last.walked.frames, context, k, last.memory⟩

/-- The report for a caller that lacks a context or a request; the context is missed first. -/
def missing (context : Option Context) (request : Option Request) : Option Report :=
  match context, request with
  | some _, some _ => none
  | none, _ => some (.failed (.misuse .noContext))
  | _, none => some (.failed (.misuse .noRequest))

end Unwinder
