import WebHost.Fault
import WebHost.Http.Request

/-! Taking one request off a stream into a buffer of fixed capacity. The buffer is made first. Then
the head is read, as the stream delivers it; then, if it declares a length, the body and no more. -/
namespace WebHost.Http

/-- What a stream does next: hand out bytes or fail. Bytes that a read has no room for stay. -/
inductive Delivery
  | data (bs : Bytes)
  | failure (e : IoError)
  deriving DecidableEq, Repr

/-- A stream with its deliveries to come and the sizes it has been asked for, latest first. After
the last delivery it is at its end. -/
structure Stream where
  deliveries : List Delivery
  asked : List Nat := []
  deriving DecidableEq, Repr

/-- The most bytes that one buffer can have. -/
def bufferBound : Nat := 9223372036854775807

inductive IntakeError
  /-- The capacity is beyond the bound. Whoever asked for the buffer is stopped then and there. -/
  | noBuffer
  | closed
  | malformed (e : RequestError)
  | io (e : IoError)
  deriving DecidableEq, Repr

def IntakeError.message : IntakeError → Text
  | .noBuffer => "capacity overflow".toList
  | .closed => "connection closed before any data arrived".toList
  | .malformed e => e.message
  | .io e => "read failed: ".toList ++ e.text

def defaultCapacity : Nat := 65536

namespace Stream

/-- One read of at most `room` bytes. No bytes means the end. -/
def read (room : Nat) (s : Stream) : Except IoError Bytes × Stream :=
  let asked := room :: s.asked
  match s.deliveries with
  | [] => (.ok [], ⟨[], asked⟩)
  | .failure e :: ds => (.error e, ⟨ds, asked⟩)
  | .data bs :: ds =>
    match bs.drop room with
    | [] => (.ok bs, ⟨ds, asked⟩)
    | left => (.ok (bs.take room), ⟨.data left :: ds, asked⟩)

/-- A read that an interruption repeats. A timeout counts as the end. -/
def receiveFrom (room : Nat) (asked : List Nat) : List Delivery → Except IoError Bytes × Stream
  | .failure e :: ds =>
    match e.kind with
    | .interrupted => receiveFrom room (room :: asked) ds
    | .wouldBlock | .timedOut => (.ok [], ⟨ds, room :: asked⟩)
    | _ => (.error e, ⟨ds, room :: asked⟩)
  | ds => read room ⟨ds, asked⟩

def receive (room : Nat) (s : Stream) : Except IoError Bytes × Stream :=
  receiveFrom room s.asked s.deliveries

/-- Reads until `held` has a terminator, which is looked for from `start` on. -/
def seekHead (capacity : Nat) (held : Bytes) (start : Nat) (s : Stream) :
    Except IntakeError (Nat × Bytes) × Stream :=
  match headEndFrom start (held.drop start) with
  | some h => (.ok (h, held), s)
  | none =>
    if capacity ≤ held.length then (.error (.malformed .missingTerminator), s)
    else
      match s.receive (capacity - held.length) with
      | (.error e, s') => (.error (.io e), s')
      | (.ok [], s') =>
        (.error (if held.isEmpty then .closed else .malformed .missingTerminator), s')
      | (.ok (b :: bs), s') =>
        seekHead capacity (held ++ b :: bs) (held.length - (terminator.length - 1)) s'
termination_by capacity - held.length
decreasing_by simp only [List.length_append, List.length_cons]; omega

/-- Reads until `goal` bytes are held or the stream ends. -/
def fill (goal : Nat) (held : Bytes) (s : Stream) : Except IntakeError Bytes × Stream :=
  if goal ≤ held.length then (.ok held, s)
  else
    match s.receive (goal - held.length) with
    | (.error e, s') => (.error (.io e), s')
    | (.ok [], s') => (.ok held, s')
    | (.ok (b :: bs), s') => fill goal (held ++ b :: bs) s'
termination_by goal - held.length
decreasing_by simp only [List.length_append, List.length_cons]; omega

/-- The bytes of one request, ready to be parsed. A body beyond the capacity is cut off. -/
def takeRequest (capacity : Nat) (s : Stream) : Except IntakeError Bytes × Stream :=
  if bufferBound < capacity then (.error .noBuffer, s)
  else
    match seekHead capacity [] 0 s with
    | (.error e, s') => (.error e, s')
    | (.ok (h, held), s') =>
      match declaredLength (held.take h) with
      | .error e => (.error (.malformed e), s')
      | .ok none => (.ok held, s')
      | .ok (some n) => fill (min (h + terminator.length + n) capacity) held s'

/-- How many bytes a reader asks for next that has had these deliveries, if it is not content. -/
def demand? (capacity : Nat) (deliveries : List Delivery) : Option Nat :=
  let after := (takeRequest capacity ⟨deliveries ++ [.failure FaultKind.other.error], []⟩).2
  if after.deliveries.isEmpty then after.asked.head? else none

end Stream
end WebHost.Http
