import Std.Async.DNS
import Std.Async.Select
import Std.Async.Signal
import Std.Async.TCP
import Std.Async.Timer
import Std.Time.DateTime
import WebHost.Server.Connection
import WebHost.Server.Slots
import WebHost.Server.Startup

/-! The program: a run of the server on the machine it is started on. -/
namespace WebHost.Program
open Std.Async Std.Async.TCP.Socket

def string (t : Text) : String := String.ofList t

/-! The file system. -/

def errorCode? : IO.Error → Option UInt32
  | .alreadyExists _ c _ | .interrupted _ c _ | .noFileOrDirectory _ c _ | .invalidArgument _ c _
  | .permissionDenied _ c _ | .resourceExhausted _ c _ | .inappropriateType _ c _
  | .noSuchThing _ c _ => some c
  | .otherError c _ | .resourceBusy c _ | .resourceVanished c _ | .unsupportedOperation c _
  | .hardwareFault c _ | .unsatisfiedConstraints c _ | .illegalOperation c _ | .protocolError c _
  | .timeExpired c _ => some c
  | _ => none

def kindOf (e : IO.Error) : FaultKind :=
  match errorCode? e with
  | some 2 => .notFound
  | some 4 => .interrupted
  | some 13 => .permissionDenied
  | some 16 => .resourceBusy
  | some 17 => .alreadyExists
  | some 20 => .notADirectory
  | some 21 => .isADirectory
  | some 32 => .brokenPipe
  | some 36 => .invalidFilename
  | some 98 => .addressInUse
  | some 99 => .addressNotAvailable
  | some 104 => .connectionReset
  | some 111 => .connectionRefused
  | _ => .other

def attempt {α : Type} (a : IO α) : IO (Except FaultKind α) :=
  try return .ok (← a) catch e => return .error (kindOf e)

def look (path : Text) : IO (Except FaultKind Entry) := do
  if path.contains '\x00' then return .error .invalidInput
  if path.isEmpty then return .error .notFound
  attempt do
    let place := (← IO.currentDir) / string path
    match (← place.metadata).type with
    | .dir => return .directory
    | .file => return .file (← IO.FS.readBinFile place).toList
    | _ => return .sink

def writeAtEnd (path : Text) (bs : Bytes) : IO Unit := do
  let handle ← IO.FS.Handle.mk (string path) .append
  handle.write ⟨bs.toArray⟩
  handle.flush

/-- Makes one directory; one that is there already will do. -/
def ensureDirectory (path : Text) : IO (Except FaultKind Unit) := do
  match ← attempt (IO.FS.createDir (string path)) with
  | .error .alreadyExists =>
    match ← look path with
    | .ok .directory => return .ok ()
    | _ => return .error .alreadyExists
  | outcome => return outcome

/-- Makes a directory and those above it that are missing, the paths given by their lengths. -/
def makeDirectoriesUp (path : Text) : List Nat → IO (Except FaultKind Unit)
  | [] => return .ok ()
  | n :: above => do
    match ← ensureDirectory (path.take n) with
    | .error .notFound =>
      match ← makeDirectoriesUp path above with
      | .ok () => ensureDirectory (path.take n)
      | failed => return failed
    | outcome => return outcome

def change : Disk.Change → IO (Except FaultKind Unit)
  | .makeDirectories path => makeDirectoriesUp path (FilePath.lengths path)
  | .create path => attempt (IO.FS.writeBinFile (string path) ⟨#[]⟩)
  | .append path bs => attempt (writeAtEnd path bs)
  | .rename old new => attempt (IO.FS.rename (string old) (string new))

/-! The clock and random text. -/

def alphabet : List Char :=
  "ABCDEFGHIJKLMNOPQRSTUVWXYZabcdefghijklmnopqrstuvwxyz0123456789".toList

/-- Random letters and digits. Bytes that would favour some of them are left out. -/
partial def randomText (length : Nat) (sofar : Text) : IO Text := do
  if length ≤ sofar.length then return sofar.take length
  let size := alphabet.length
  let fresh := (← IO.getRandomBytes 64).toList.filter fun b => b.toNat < 256 / size * size
  randomText length (fresh.filterMap (fun b => alphabet[b.toNat % size]?) ++ sofar)

def moment : IO Moment := do
  let seconds := (← Std.Time.Timestamp.now).toSecondsSinceUnixEpoch.val
  return ⟨seconds.toNat, ← randomText Credentials.tokenLength [],
    ← randomText Credentials.saltLength []⟩

/-! The network. -/

/-- What the threads of the server share. -/
structure Shared where
  settings : Settings
  site : IO.Ref Site
  slots : IO.Ref Slots

def perform (s : Shared) {β : Type} (o : Site.Op β) : IO β := do
  let m ← moment
  s.site.modifyGet fun site => site.applyAt m o

def dispatch (s : Shared) (request : Http.Request) : IO Http.Response := do
  let site ← s.site.get
  let seen ← (site.pathFor? s.settings.pages request).mapM fun path => do
    return (path, ← look path)
  let w : Surroundings :=
    { files := fun path => (seen.toList.lookup path).getD (.error .notFound)
      pages := s.settings.pages
      fileLimit := s.settings.fileLimit.toNat }
  (Site.dispatch w (site.routes.depth + 1) request).carryOut (perform s)

def milliseconds (n : Nat) : Std.Time.Millisecond.Offset := .ofNat n

/-- One read of at most `size` bytes. -/
def receive (client : Client) (size patience : Nat) : Async Http.Delivery := do
  let data (got : Option ByteArray) : Http.Delivery := .data ((got.getD ⟨#[]⟩).toList)
  let room := (min size Http.defaultCapacity).toUInt64
  try
    if patience = 0 then return data (← client.recv? room)
    else
      Selectable.one #[
        .case (client.recvSelector room) fun got => return data got,
        .case (← Selector.sleep (milliseconds patience)) fun _ =>
          return .failure FaultKind.wouldBlock.error]
  catch e => return .failure (kindOf e).error

partial def takeIn (client : Client) (capacity patience : Nat) (sofar : List Http.Delivery) :
    Async (List Http.Delivery) := do
  match Http.Stream.demand? capacity sofar with
  | none => return sofar
  | some size =>
    let next ← receive client size patience
    takeIn client capacity patience (sofar ++ [next])

/-- Closes the sending side and drops what still comes, within limits on bytes and on waiting. -/
partial def drain (client : Client) (patience room : Nat) : Async Unit := do
  if room = 0 then return
  match ← receive client 4096 patience with
  | .data (b :: bs) => drain client patience (room - (b :: bs).length)
  | _ => return

def finish (client : Client) (patience : Nat) (pieces : List Bytes) : Async Unit := do
  if pieces.isEmpty then return
  for piece in pieces do
    client.send ⟨piece.toArray⟩
  client.shutdown
  drain client (if patience = 0 then 2000 else min patience 2000) (1024 * 1024)

def work (s : Shared) (client : Client) : Async Unit := do
  let patience := s.settings.patience.toNat
  let capacity := s.settings.requestLimit.toNat
  let deliveries ← takeIn client capacity patience []
  let outcome ← Connection.serve (fun r => (dispatch s r : IO _)) capacity
    s.settings.headerLimit.toNat ⟨deliveries, []⟩
  match outcome with
  | .error _ => return
  | .ok pieces => finish client patience pieces

def settle (s : Shared) (e : Slots.Event) : IO Unit :=
  s.slots.modify fun slots => (slots.step e).getD slots

/-- Finds a worker for a connection, or refuses it. -/
def welcome (s : Shared) (client : Client) : Async Unit := do
  settle s .count
  let slots ← s.slots.get
  let fate := slots.fate (slots.counted.getD 0) true
  settle s (.decide true)
  background do
    try
      match fate with
      | .served => try work s client finally settle s .leave
      | _ => finish client s.settings.patience.toNat [(Connection.closing Connection.refusal).toBytes]
    catch _ => return

/-- Accepts connections for ever. -/
partial def acceptAll (s : Shared) (server : Server) : Async Unit := do
  try welcome s (← server.accept) catch _ => pure ()
  acceptAll s server

def addressOf (host : String) (port : UInt16) : Async (Option Std.Net.SocketAddress) := do
  match Std.Net.IPv4Addr.ofString host with
  | some a => return some (.v4 ⟨a, port⟩)
  | none =>
    let found : Array Std.Net.IPAddr ← DNS.getAddrInfo host (toString port)
    match found.toList with
    | .v4 a :: _ => return some (.v4 ⟨a, port⟩)
    | .v6 a :: _ => return some (.v6 ⟨a, port⟩)
    | [] => return none

def listen (listener : IO.Ref (Option Server)) (address : Text) : IO (Except IoError Unit) := do
  let port := ((address.reverse.takeWhile (· != ':')).reverse)
  let host := address.take (address.length - port.length - 1)
  try
    match ← (addressOf (string host) ((Text.port? port).getD 0)).block with
    | none => return .error FaultKind.unknownHost.error
    | some place =>
      let server ← Server.mk
      server.bind place
      server.listen 128
      listener.set (some server)
      return .ok ()
  catch e => return .error ⟨kindOf e, (toString e).toList⟩

/-- Serves until one of the signals comes that ask for an end. -/
def serve (listener : IO.Ref (Option Server)) (settings : Settings) (site : Site) :
    IO (Option Site) := do
  match ← listener.get with
  | none => return none
  | some server =>
    let shared : Shared :=
      { settings, site := ← IO.mkRef site
        slots := ← IO.mkRef { limit := settings.connectionLimit.toNat } }
    let interrupt ← (← Signal.Waiter.mk .sigint false).wait
    let terminate ← (← Signal.Waiter.mk .sigterm false).wait
    (background (acceptAll shared server)).block
    let _ ← IO.waitAny [interrupt, terminate]
    return some (← shared.site.get)

def performOn (listener : IO.Ref (Option Server)) {β : Type} (o : Machine.Op β) : IO β :=
  match o with
  | .look path => look path
  | .change c => change c
  | .listen address => listen listener address
  | .serve settings site => serve listener settings site

def environment : IO (List (Text × Text)) := do
  let values ← Settings.Field.all.mapM fun f => do
    let value ← IO.getEnv (string f.variableName)
    return value.map fun v => (f.variableName, v.toList)
  return values.filterMap id

def start (args : List String) : IO UInt32 := do
  let listener ← IO.mkRef none
  let ending ← (Startup.run (args.map String.toList) (← environment)).carryOut
    (performOn listener)
  IO.print (string ending.out)
  IO.eprint (string ending.err)
  return (ending.code.getD 1).toUInt32

end WebHost.Program

def main (args : List String) : IO UInt32 :=
  WebHost.Program.start args
