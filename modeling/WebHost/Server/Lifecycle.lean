/-! Starting and stopping, one atomic step after the other. One thread binds and then serves; any
number of threads ask it to stop, and wake it with a connection in case it waits for one. -/
namespace WebHost

/-- What the serving thread does next. -/
inductive Serving
  | openListener
  | noteAddress
  | markRunning
  /-- Looks whether a stop has been requested before serving begins. -/
  | begin
  | unmarkRunning
  /-- Waits for a connection. -/
  | accept
  /-- Looks whether the server still runs, with a connection in hand or after an accept that failed. -/
  | checkRunning (held : Bool)
  | checkRequest (held : Bool)
  /-- Starts a worker for the connection it holds. -/
  | hand
  | closeListener
  | finished
  deriving DecidableEq, Repr

/-- What a stopping thread does next. -/
inductive Stopping
  | request
  | unmarkRunning
  | readAddress
  | wake
  | returned
  deriving DecidableEq, Repr

structure Lifecycle where
  running : Bool := false
  stopRequested : Bool := false
  /-- The listener's address is known. -/
  hasAddress : Bool := false
  listening : Bool := false
  /-- Connections that nobody has accepted yet. -/
  queued : Nat := 0
  /-- Connections handed to workers after a stop was requested. -/
  late : Nat := 0
  serving : Serving := .openListener
  stops : List Stopping := []
  deriving DecidableEq, Repr

namespace Lifecycle

/-- The next step of the serving thread. It has none while it waits and nobody connects, and none
at the end. -/
def serveStep (l : Lifecycle) : Option Lifecycle :=
  match l.serving with
  | .openListener => some { l with listening := true, serving := .noteAddress }
  | .noteAddress => some { l with hasAddress := true, serving := .markRunning }
  | .markRunning => some { l with running := true, serving := .begin }
  | .begin =>
    some { l with serving := if l.stopRequested then .unmarkRunning else .accept }
  | .unmarkRunning => some { l with running := false, serving := .closeListener }
  | .accept =>
    match l.queued with
    | 0 => none
    | queued + 1 => some { l with queued, serving := .checkRunning true }
  | .checkRunning held =>
    some { l with serving := if l.running then .checkRequest held else .closeListener }
  | .checkRequest held =>
    some { l with
      serving := if l.stopRequested then .closeListener else if held then .hand else .accept }
  | .hand =>
    some { l with late := if l.stopRequested then l.late + 1 else l.late, serving := .accept }
  | .closeListener => some { l with listening := false, queued := 0, serving := .finished }
  | .finished => none

/-- The system refuses what the serving thread asks for. Without a listener or its address there is
nothing to serve; an accept that fails, and may lose a connection, is only reported. -/
def refusal (l : Lifecycle) (lost : Bool) : Option Lifecycle :=
  match l.serving with
  | .openListener => some { l with serving := .finished }
  | .noteAddress => some { l with listening := false, queued := 0, serving := .finished }
  | .accept => some { l with queued := l.queued - lost.toNat, serving := .checkRunning false }
  | _ => none

/-- A connection arrives, if there is a listener. -/
def connect (l : Lifecycle) : Lifecycle :=
  if l.listening then { l with queued := l.queued + 1 } else l

/-- A step of a stopping thread, and what it does next. Only the first to request a stop goes on,
and only if it finds the server running and its address known does it wake the listener. -/
def stopStep (l : Lifecycle) : Stopping → Option (Lifecycle × Stopping)
  | .request =>
    some ({ l with stopRequested := true },
      if l.stopRequested then .returned else .unmarkRunning)
  | .unmarkRunning =>
    some ({ l with running := false }, if l.running then .readAddress else .returned)
  | .readAddress => some (l, if l.hasAddress then .wake else .returned)
  | .wake => some (l.connect, .returned)
  | .returned => none

/-- Who does something. -/
inductive Event
  | serve
  | refuse (lost : Bool)
  /-- Somebody calls for a stop. -/
  | call
  /-- The caller of that number goes on. -/
  | stop (i : Nat)
  | client
  deriving DecidableEq, Repr

def step (l : Lifecycle) : Event → Option Lifecycle
  | .serve => l.serveStep
  | .refuse lost => l.refusal lost
  | .call => some { l with stops := l.stops ++ [.request] }
  | .stop i => do
    let (l', next) ← l.stopStep (← l.stops[i]?)
    return { l' with stops := l'.stops.set i next }
  | .client => some l.connect

def run (l : Lifecycle) : List Event → Option Lifecycle
  | [] => some l
  | e :: es => (l.step e).bind fun l => l.run es

/-- The serving thread alone, for at most `n` steps. -/
def serveFor : Nat → Lifecycle → Lifecycle
  | 0, l => l
  | n + 1, l =>
    match l.serveStep with
    | none => l
    | some l' => serveFor n l'

/-- Binding, as one piece. -/
def bind (l : Lifecycle) : Lifecycle := serveFor 3 { l with serving := .openListener }

/-- Serving until there is nothing to do. Each connection in the queue takes four steps. -/
def serve (l : Lifecycle) : Lifecycle := serveFor (4 * l.queued + 4) l

/-- A stopping thread alone, for at most `n` steps. -/
def stopFor : Nat → Lifecycle → Stopping → Lifecycle
  | 0, l, _ => l
  | n + 1, l, s =>
    match l.stopStep s with
    | none => l
    | some (l', s') => stopFor n l' s'

/-- A whole call for a stop, and what the serving thread makes of it. -/
def stop (l : Lifecycle) : Lifecycle :=
  let stopped := stopFor 4 l .request
  if stopped.serving = .accept then stopped.serve else stopped

end Lifecycle
end WebHost
