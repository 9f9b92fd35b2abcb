import WebHost.Proofs.Http.Arrival

/-! Taking a request off a stream into a buffer of fixed size, in single steps. The size is checked
when the buffer is made. From then on each place in the buffer is a number of 64 bits, each slice is
checked for its bounds and each sum for its size; none of these checks ever fails, and the reads
made and the bytes taken are those of the reader that keeps what it holds in a list. -/
namespace WebHost.Http

/-- What must not happen on the way. -/
inductive Violation
  /-- A buffer is larger than one can be. -/
  | tooLarge
  /-- A slice ends before its beginning or behind the buffer. -/
  | outside
  /-- A read is offered no byte. -/
  | noRoom
  /-- A sum needs more than 64 bits. -/
  | overflow
  deriving DecidableEq, Repr

/-- A buffer of that size, with nothing in it yet. -/
def buffer (capacity : Nat) : Except Violation Bytes :=
  if capacity ≤ bufferBound then .ok (List.replicate capacity 0) else .error .tooLarge

/-- The bytes from place `i` up to place `j`. -/
def slice (bs : Bytes) (i j : Nat) : Except Violation Bytes :=
  if i ≤ j ∧ j ≤ bs.length then .ok ((bs.take j).drop i) else .error .outside

def checkedSum (a b : Nat) : Except Violation Nat :=
  if a + b < Text.sizeBound then .ok (a + b) else .error .overflow

/-- A sum that stops at the greatest number. -/
def saturatedSum (a b : Nat) : Nat := min (a + b) (Text.sizeBound - 1)

theorem buffer_eq {capacity : Nat} (h : capacity ≤ bufferBound) :
    buffer capacity = .ok (List.replicate capacity 0) := if_pos h

theorem buffer_of_lt {capacity : Nat} (h : bufferBound < capacity) :
    buffer capacity = .error .tooLarge := if_neg (Nat.not_le_of_lt h)

theorem slice_eq {bs : Bytes} {i j : Nat} (hi : i ≤ j) (hj : j ≤ bs.length) :
    slice bs i j = .ok ((bs.take j).drop i) := if_pos ⟨hi, hj⟩

theorem checkedSum_eq {a b : Nat} (h : a + b < Text.sizeBound) : checkedSum a b = .ok (a + b) :=
  if_pos h

theorem min_saturatedSum {capacity : Nat} (h : capacity < Text.sizeBound) (a b : Nat) :
    min (saturatedSum a b) capacity = min (a + b) capacity := by
  rw [saturatedSum, Nat.min_assoc, Nat.min_eq_right (Nat.le_sub_one_of_lt h)]

theorem headEndFrom_eq_none_of_short {bs : Bytes} (h : bs.length < terminator.length) (i : Nat) :
    headEndFrom i bs = none := by
  rw [headEndFrom_eq_map, Option.map_eq_none_iff]
  cases he : headEnd? bs with
  | none => rfl
  | some n =>
    have := headEnd?_add_le_length he
    omega

namespace Stream

/-- How many reads these deliveries interrupt. -/
def interruptions (ds : List Delivery) : Nat :=
  ds.countP fun
    | .failure e => e.kind == .interrupted
    | .data _ => false

/-- The reads made and those that interruptions may still cost. -/
def spent (s : Stream) : Nat := s.asked.length + interruptions s.deliveries

theorem interruptions_failure (e : IoError) (ds : List Delivery) :
    interruptions (.failure e :: ds) =
      if e.kind = .interrupted then interruptions ds + 1 else interruptions ds := by
  rw [interruptions, List.countP_cons]
  by_cases hi : e.kind = .interrupted <;> simp [interruptions, hi]

theorem spent_read_data (room : Nat) (asked : List Nat) (bs : Bytes) (ds : List Delivery) :
    spent (read room ⟨.data bs :: ds, asked⟩).2 = spent ⟨.data bs :: ds, asked⟩ + 1 := by
  cases hl : bs.drop room <;> simp [read, hl, spent, interruptions] <;> omega

/-- However often it is interrupted, a receive costs one read that no interruption has paid for. -/
theorem spent_receiveFrom (room : Nat) (asked : List Nat) (ds : List Delivery) :
    spent (receiveFrom room asked ds).2 ≤ spent ⟨ds, asked⟩ + 1 := by
  induction ds generalizing asked with
  | nil => exact Nat.le_refl _
  | cons d ds ih =>
    cases d with
    | data bs => exact Nat.le_of_eq (spent_read_data room asked bs ds)
    | failure e =>
      rw [receiveFrom_failure]
      by_cases hi : e.kind = .interrupted
      · rw [if_pos hi]
        refine Nat.le_trans (ih (room :: asked)) (Nat.le_of_eq ?_)
        simp only [spent, List.length_cons, interruptions_failure, hi, if_true]
        omega
      · rw [if_neg hi]
        by_cases hp : e.kind.isPassing <;> simp [hp, spent, interruptions_failure, hi] <;> omega

theorem spent_receive {room : Nat} {got : Except IoError Bytes} {s s' : Stream}
    (h : s.receive room = (got, s')) : spent s' ≤ spent s + 1 := by
  have hle := spent_receiveFrom room s.asked s.deliveries
  rwa [show receiveFrom room s.asked s.deliveries = (got, s') from h] at hle

theorem length_le_of_receive {room : Nat} {bs : Bytes} {s s' : Stream} (hr : 0 < room)
    (h : s.receive room = (.ok bs, s')) : bs.length ≤ room := by
  cases bs with
  | nil => exact Nat.zero_le _
  | cons b bs => exact (arriving_of_receive_cons hr h).1

/-- The search goes on in the same way from any place where it finds nothing. -/
theorem seekHead_of_none {capacity start start' : Nat} {held : Bytes} {s : Stream}
    (h : headEndFrom start (held.drop start) = none)
    (h' : headEndFrom start' (held.drop start') = none) :
    seekHead capacity held start s = seekHead capacity held start' s := by
  rw [seekHead, seekHead, h, h']

/-- What is left to do once the search for the head is over. -/
def afterHead (capacity : Nat) :
    Except IntakeError (Nat × Bytes) × Stream → Except IntakeError Bytes × Stream
  | (.error e, s) => (.error e, s)
  | (.ok (h, held), s) =>
    match declaredLength (held.take h) with
    | .error e => (.error (.malformed e), s)
    | .ok none => (.ok held, s)
    | .ok (some n) => fill (min (h + terminator.length + n) capacity) held s

theorem takeRequest_eq_afterHead {capacity : Nat} (h : capacity ≤ bufferBound) (s : Stream) :
    takeRequest capacity s = afterHead capacity (seekHead capacity [] 0 s) := by
  rw [takeRequest, if_neg (Nat.not_lt_of_le h)]
  rcases seekHead capacity [] 0 s with ⟨e | ⟨h, held⟩, s'⟩ <;> rfl

end Stream

/-- What a reader does next: search what it has not searched; read, as there is no terminator yet;
see what the head declares; read the body up to a goal; or nothing more. -/
inductive Stage
  | seeking
  | lacking
  | found (head : Nat)
  | filling (head goal : Nat)
  | done (outcome : Except IntakeError Bytes)

/-- How many stages may still follow until a read. -/
def Stage.rank : Stage → Nat
  | .seeking => 4
  | .lacking => 3
  | .found _ => 2
  | .filling _ _ => 1
  | .done _ => 0

/-- A reader that has put the first `filled` bytes of its buffer there, of which those before
`searchFrom` need not be searched again. -/
structure BufferReader where
  buffer : Bytes
  filled : Nat
  searchFrom : Nat
  stage : Stage
  stream : Stream

namespace BufferReader

/-- A reader that has put nothing into its buffer. -/
def fresh (buffer : Bytes) (ds : List Delivery) : BufferReader where
  buffer
  filled := 0
  searchFrom := 0
  stage := .seeking
  stream := ⟨ds, []⟩

def start (capacity : Nat) (ds : List Delivery) : Except Violation BufferReader := do
  return fresh (← Http.buffer capacity) ds

def held (r : BufferReader) : Bytes := r.buffer.take r.filled

def stop (outcome : Except IntakeError Bytes) (r : BufferReader) : BufferReader :=
  { r with stage := .done outcome }

/-- These bytes put into the buffer where it is free. -/
def overwritten (bs : Bytes) (r : BufferReader) : Bytes :=
  r.held ++ bs ++ r.buffer.drop (r.filled + bs.length)

/-- A read into the buffer before place `limit`, and how many bytes it got. -/
def readUpTo (limit : Nat) (r : BufferReader) :
    Except Violation (Except IoError Nat × BufferReader) := do
  let room ← slice r.buffer r.filled limit
  if room.isEmpty then .error .noRoom
  else
    match r.stream.receive room.length with
    | (.error e, s) => return (.error e, { r with stream := s })
    | (.ok bs, s) =>
      let filled ← checkedSum r.filled bs.length
      return (.ok bs.length, { r with buffer := r.overwritten bs, filled, stream := s })

/-- A read, and what comes next if it failed, got nothing, or got something. -/
def readOn (limit : Nat) (ended : Except IntakeError Bytes) (next : Stage) (r : BufferReader) :
    Except Violation BufferReader := do
  match ← r.readUpTo limit with
  | (.error e, r') => return r'.stop (.error (.io e))
  | (.ok 0, r') => return r'.stop ended
  | (.ok (_ + 1), r') => return { r' with stage := next }

def step (r : BufferReader) : Except Violation BufferReader :=
  match r.stage with
  | .seeking => do
    let unsearched ← slice r.buffer r.searchFrom r.filled
    match headEnd? unsearched with
    | some n => return { r with stage := .found (← checkedSum r.searchFrom n) }
    | none =>
      -- The last bytes held may be the beginning of a terminator.
      return { r with searchFrom := r.filled - (terminator.length - 1), stage := .lacking }
  | .lacking =>
    if r.filled = r.buffer.length then .ok (r.stop (.error (.malformed .missingTerminator)))
    else
      let ended := if r.filled = 0 then .closed else .malformed .missingTerminator
      r.readOn r.buffer.length (.error ended) .seeking
  | .found head => do
    match declaredLength (← slice r.buffer 0 head) with
    | .error e => return r.stop (.error (.malformed e))
    | .ok none => return r.stop (.ok r.held)
    | .ok (some n) =>
      let body ← checkedSum head terminator.length
      return { r with stage := .filling head (min (saturatedSum body n) r.buffer.length) }
  | .filling head goal =>
    if r.filled < goal then r.readOn goal (.ok r.held) (.filling head goal)
    else .ok (r.stop (.ok r.held))
  | .done _ => .ok r

/-- What has come of the reader after some steps. -/
inductive Reached (capacity : Nat) (ds : List Delivery) : BufferReader → Prop
  | start {r : BufferReader} (hs : start capacity ds = .ok r) : Reached capacity ds r
  | step {r r' : BufferReader} (h : Reached capacity ds r) (hs : r.step = .ok r') :
      Reached capacity ds r'

/-- The bounds that a stage relies on. -/
def StageFits (capacity : Nat) (r : BufferReader) : Prop :=
  match r.stage with
  | .lacking => r.searchFrom = r.filled - (terminator.length - 1)
  | .found head => head + terminator.length ≤ r.filled
  | .filling head goal => head + terminator.length ≤ r.filled ∧ goal ≤ capacity
  | _ => True

structure InBounds (capacity : Nat) (r : BufferReader) : Prop where
  length_eq : r.buffer.length = capacity
  searchFrom_le : r.searchFrom ≤ r.filled
  filled_le : r.filled ≤ capacity
  stageFits : r.StageFits capacity

/-- What the reader on a list makes of what is left to do. -/
def outlook (r : BufferReader) : Except IntakeError Bytes × Stream :=
  let capacity := r.buffer.length
  match r.stage with
  | .seeking | .lacking =>
    Stream.afterHead capacity (Stream.seekHead capacity r.held r.searchFrom r.stream)
  | .found head => Stream.afterHead capacity (.ok (head, r.held), r.stream)
  | .filling _ goal => Stream.fill goal r.held r.stream
  | .done outcome => (outcome, r.stream)

/-- The reads that the bytes held and the end of the stream pay for. -/
def paid (r : BufferReader) : Nat :=
  if r.stage.rank = 0 then r.buffer.length + 1 else r.filled

/-- What is left to do, in steps at most. -/
def toDo (r : BufferReader) : Nat := 2 * (r.buffer.length - r.filled) + r.stage.rank

/-- One step on, with the bounds kept. -/
structure Advances (capacity : Nat) (r r' : BufferReader) : Prop where
  inBounds : r'.InBounds capacity
  outlook_eq : r'.outlook = r.outlook
  spent_le : r'.stream.spent + r.paid ≤ r.stream.spent + r'.paid
  toDo_lt : r'.toDo < r.toDo

section Step
variable {capacity limit : Nat} {r : BufferReader}

theorem length_held (h : r.filled ≤ r.buffer.length) : r.held.length = r.filled := by
  rw [held, List.length_take, Nat.min_eq_left h]

theorem length_overwritten {bs : Bytes} (h : r.filled + bs.length ≤ r.buffer.length) :
    (r.overwritten bs).length = r.buffer.length := by
  rw [overwritten, List.length_append, List.length_append, length_held (by omega),
    List.length_drop]
  omega

/-- The reader after a read that got these bytes. -/
def afterRead (bs : Bytes) (s : Stream) (r : BufferReader) : BufferReader :=
  { r with buffer := r.overwritten bs, filled := r.filled + bs.length, stream := s }

/-- A read where there is room breaks no bound, and gets what the stream hands out. -/
theorem readUpTo_eq (hc : r.buffer.length < Text.sizeBound) (hf : r.filled < limit)
    (hl : limit ≤ r.buffer.length) :
    r.readUpTo limit = match r.stream.receive (limit - r.filled) with
      | (.error e, s) => .ok (.error e, { r with stream := s })
      | (.ok bs, s) => .ok (.ok bs.length, r.afterRead bs s) := by
  have hroom : ((r.buffer.take limit).drop r.filled).length = limit - r.filled := by
    rw [List.length_drop, List.length_take, Nat.min_eq_left hl]
  have hne : ((r.buffer.take limit).drop r.filled).isEmpty = false := by
    rw [← Bool.not_eq_true, List.isEmpty_iff_length_eq_zero]
    omega
  rw [readUpTo, slice_eq (by omega) hl]
  simp only [bind, Except.bind, hne, hroom]
  rcases hs : r.stream.receive (limit - r.filled) with ⟨e | bs, s⟩
  · rfl
  · have hle := Stream.length_le_of_receive (by omega) hs
    simp only [checkedSum_eq (show r.filled + bs.length < Text.sizeBound by omega)]
    rfl

@[simp] theorem afterRead_nil (s : Stream) (r : BufferReader) :
    r.afterRead [] s = { r with stream := s } := by
  simp [afterRead, overwritten, held]

theorem held_afterRead {bs : Bytes} (h : r.filled + bs.length ≤ r.buffer.length) (s : Stream) :
    (r.afterRead bs s).held = r.held ++ bs := by
  show (r.overwritten bs).take (r.filled + bs.length) = _
  rw [overwritten]
  refine List.take_left' ?_
  rw [List.length_append, length_held (by omega)]

theorem paid_eq (h : 0 < r.stage.rank) : r.paid = r.filled := if_neg (by omega)

/-- A reader that stops, after one more read at most. -/
theorem advances_stop {s : Stream} {outcome : Except IntakeError Bytes} (hb : r.InBounds capacity)
    (hstage : 0 < r.stage.rank) (hs : s.spent ≤ r.stream.spent + 1)
    (ho : r.outlook = (outcome, s)) :
    Advances capacity r (stop outcome { r with stream := s }) where
  inBounds := ⟨hb.length_eq, hb.searchFrom_le, hb.filled_le, trivial⟩
  outlook_eq := ho.symm
  spent_le := by
    have hle : r.filled ≤ r.buffer.length := hb.length_eq ▸ hb.filled_le
    rw [paid_eq hstage]
    show s.spent + r.filled ≤ r.stream.spent + (r.buffer.length + 1)
    omega
  toDo_lt := Nat.add_lt_add_left hstage _

/-- A reader that goes on after a read that got something. -/
theorem advances_afterRead {b : UInt8} {bs : Bytes} {s : Stream} {stage : Stage}
    (hb : r.InBounds capacity) (hlen : r.filled + (b :: bs).length ≤ capacity)
    (hs : s.spent ≤ r.stream.spent + 1) (hstage : 0 < r.stage.rank) (hpos : 0 < stage.rank)
    (hrank : stage.rank ≤ r.stage.rank + 1)
    (hfits : StageFits capacity { r.afterRead (b :: bs) s with stage })
    (ho : outlook { r.afterRead (b :: bs) s with stage } = r.outlook) :
    Advances capacity r { r.afterRead (b :: bs) s with stage } := by
  have hover : (r.overwritten (b :: bs)).length = capacity :=
    (length_overwritten (hb.length_eq ▸ hlen)).trans hb.length_eq
  rw [List.length_cons] at hlen
  refine ⟨⟨hover, Nat.le_add_right_of_le hb.searchFrom_le, hlen, hfits⟩, ho, ?_, ?_⟩
  · rw [paid_eq hstage, paid_eq hpos]
    show s.spent + r.filled ≤ r.stream.spent + (r.filled + (bs.length + 1))
    omega
  · show 2 * ((r.overwritten (b :: bs)).length - (r.filled + (bs.length + 1))) + stage.rank <
      2 * (r.buffer.length - r.filled) + r.stage.rank
    rw [hover, hb.length_eq]
    omega

/-- A read where there is room is a step on, if what is left to do is what its result calls for. -/
theorem readOn_advances {ended : Except IntakeError Bytes} {next : Stage}
    (hb : r.InBounds capacity) (hc : capacity < Text.sizeBound) (hlt : r.filled < limit)
    (hl : limit ≤ capacity) (hstage : 0 < r.stage.rank) (hpos : 0 < next.rank)
    (hrank : next.rank ≤ r.stage.rank + 1)
    (hfailed : ∀ e s, r.stream.receive (limit - r.filled) = (.error e, s) →
      r.outlook = (.error (.io e), s))
    (hended : ∀ s, r.stream.receive (limit - r.filled) = (.ok [], s) → r.outlook = (ended, s))
    (hmore : ∀ b bs s, r.stream.receive (limit - r.filled) = (.ok (b :: bs), s) →
      r.filled + (b :: bs).length ≤ capacity →
      StageFits capacity { r.afterRead (b :: bs) s with stage := next } ∧
        outlook { r.afterRead (b :: bs) s with stage := next } = r.outlook) :
    ∃ r', r.readOn limit ended next = .ok r' ∧ Advances capacity r r' := by
  rw [readOn, readUpTo_eq (hb.length_eq ▸ hc) hlt (hb.length_eq ▸ hl)]
  rcases hs : r.stream.receive (limit - r.filled) with ⟨e | bs, s⟩
  · exact ⟨_, rfl, advances_stop hb hstage (Stream.spent_receive hs) (hfailed e s hs)⟩
  · cases bs with
    | nil =>
      refine ⟨(r.afterRead [] s).stop ended, rfl, ?_⟩
      rw [afterRead_nil]
      exact advances_stop hb hstage (Stream.spent_receive hs) (hended s hs)
    | cons b bs =>
      have hgot := Stream.length_le_of_receive (by omega) hs
      have hlen : r.filled + (b :: bs).length ≤ capacity := by omega
      obtain ⟨hfits, ho⟩ := hmore b bs s hs hlen
      exact ⟨_, rfl,
        advances_afterRead hb hlen (Stream.spent_receive hs) hstage hpos hrank hfits ho⟩

/-- A reader that goes on without a read. -/
theorem advances_quietly {searchFrom : Nat} {stage : Stage} (hb : r.InBounds capacity)
    (hfrom : searchFrom ≤ r.filled) (hpos : 0 < stage.rank) (hrank : stage.rank < r.stage.rank)
    (hfits : StageFits capacity { r with searchFrom, stage })
    (ho : outlook { r with searchFrom, stage } = r.outlook) :
    Advances capacity r { r with searchFrom, stage } where
  inBounds := ⟨hb.length_eq, hfrom, hb.filled_le, hfits⟩
  outlook_eq := ho
  spent_le := Nat.le_of_eq (by rw [paid_eq (by omega), paid_eq hpos])
  toDo_lt := Nat.add_lt_add_left hrank _

theorem outlook_of_head (h : r.stage = .seeking ∨ r.stage = .lacking) :
    r.outlook = Stream.afterHead r.buffer.length
      (Stream.seekHead r.buffer.length r.held r.searchFrom r.stream) := by
  rcases h with h | h <;> rw [outlook, h]

theorem seeking_advances (hb : r.InBounds capacity) (hc : capacity < Text.sizeBound)
    (hstage : r.stage = .seeking) : ∃ r', r.step = .ok r' ∧ Advances capacity r r' := by
  have hlen : r.filled ≤ r.buffer.length := hb.length_eq ▸ hb.filled_le
  have hheld := length_held hlen
  have hpos : 0 < terminator.length := by decide
  have hunsearched : r.held.drop r.searchFrom = (r.buffer.take r.filled).drop r.searchFrom := rfl
  rw [step, hstage]
  simp only [slice_eq hb.searchFrom_le hlen, bind, Except.bind, ← hunsearched]
  cases he : headEnd? (r.held.drop r.searchFrom) with
  | some n =>
    have hn := headEnd?_add_le_length he
    have hle := hb.filled_le
    rw [List.length_drop, hheld] at hn
    have hfound :
        headEndFrom r.searchFrom (r.held.drop r.searchFrom) = some (r.searchFrom + n) := by
      rw [headEndFrom_eq_map, he, Option.map_some]
    simp only [checkedSum_eq (show r.searchFrom + n < Text.sizeBound by omega)]
    refine ⟨_, rfl, advances_quietly hb hb.searchFrom_le (by simp [Stage.rank])
      (by simp [hstage, Stage.rank]) ?_ ?_⟩
    · show r.searchFrom + n + terminator.length ≤ r.filled
      omega
    · rw [outlook_of_head (.inl hstage), Stream.seekHead, hfound]
      rfl
  | none =>
    have hnone : headEndFrom r.searchFrom (r.held.drop r.searchFrom) = none := by
      rw [headEndFrom_eq_map, he, Option.map_none]
    refine ⟨_, rfl, advances_quietly hb (Nat.sub_le _ _) (by simp [Stage.rank])
      (by simp [hstage, Stage.rank]) ?_ ?_⟩
    · show r.filled - (terminator.length - 1) = _
      rfl
    · -- Those bytes alone are too few for one, so that a search from them finds nothing either.
      have hshort :
          (r.held.drop (r.filled - (terminator.length - 1))).length < terminator.length := by
        rw [List.length_drop, hheld]
        omega
      rw [outlook_of_head (.inl hstage),
        Stream.seekHead_of_none hnone (headEndFrom_eq_none_of_short hshort _)]
      rfl

theorem lacking_advances (hb : r.InBounds capacity) (hc : capacity < Text.sizeBound)
    (hstage : r.stage = .lacking) : ∃ r', r.step = .ok r' ∧ Advances capacity r r' := by
  have hlen : r.filled ≤ r.buffer.length := hb.length_eq ▸ hb.filled_le
  have hheld := length_held hlen
  have hrank : 0 < r.stage.rank := by simp [hstage, Stage.rank]
  have hfrom : r.searchFrom = r.filled - (terminator.length - 1) := by
    simpa only [StageFits, hstage] using hb.stageFits
  have hnone : headEndFrom r.searchFrom (r.held.drop r.searchFrom) = none := by
    have hpos : 0 < terminator.length := by decide
    refine headEndFrom_eq_none_of_short ?_ _
    rw [List.length_drop, hheld]
    omega
  have hempty : (r.held.isEmpty = true) = (r.filled = 0) := by
    rw [List.isEmpty_iff_length_eq_zero, hheld]
  have ho := outlook_of_head (.inr hstage)
  rw [Stream.seekHead, hnone] at ho
  simp only [hheld, hempty, ← hfrom] at ho
  rw [step, hstage]
  by_cases hfull : r.filled = r.buffer.length
  · refine ⟨_, if_pos hfull, advances_stop hb hrank (Nat.le_succ _) ?_⟩
    rw [ho, if_pos (Nat.le_of_eq hfull.symm)]
    rfl
  · have hlt : r.filled < r.buffer.length := by omega
    rw [if_neg (Nat.not_le_of_lt hlt)] at ho
    simp only [if_neg hfull]
    refine readOn_advances hb hc hlt (Nat.le_of_eq hb.length_eq) hrank (by simp [Stage.rank])
      (by simp [hstage, Stage.rank]) (fun e s hs => by rw [ho, hs]; rfl)
      (fun s hs => by rw [ho, hs]; rfl) fun b bs s hs hfits => ⟨trivial, ?_⟩
    rw [← hb.length_eq] at hfits
    show Stream.afterHead (r.overwritten (b :: bs)).length (Stream.seekHead
      (r.overwritten (b :: bs)).length (r.afterRead (b :: bs) s).held r.searchFrom s) = _
    rw [ho, hs, length_overwritten hfits, held_afterRead hfits]

theorem found_advances {head : Nat} (hb : r.InBounds capacity) (hc : capacity < Text.sizeBound)
    (hstage : r.stage = .found head) : ∃ r', r.step = .ok r' ∧ Advances capacity r r' := by
  have hrank : 0 < r.stage.rank := by simp [hstage, Stage.rank]
  have hhead : head + terminator.length ≤ r.filled := by
    simpa only [StageFits, hstage] using hb.stageFits
  have hle := hb.filled_le
  have hslice : slice r.buffer 0 head = .ok (r.held.take head) := by
    rw [slice_eq (Nat.zero_le _) (by rw [hb.length_eq]; omega), List.drop_zero, held,
      List.take_take, Nat.min_eq_left (by omega)]
  have ho : r.outlook = Stream.afterHead r.buffer.length (.ok (head, r.held), r.stream) := by
    rw [outlook, hstage]
  rw [Stream.afterHead] at ho
  rw [step, hstage]
  simp only [hslice, bind, Except.bind]
  rcases hd : declaredLength (r.held.take head) with e | _ | n <;> rw [hd] at ho
  · exact ⟨_, rfl, advances_stop hb hrank (Nat.le_succ _) ho⟩
  · exact ⟨_, rfl, advances_stop hb hrank (Nat.le_succ _) ho⟩
  · simp only [checkedSum_eq (show head + terminator.length < Text.sizeBound by omega),
      min_saturatedSum (hb.length_eq ▸ hc)]
    refine ⟨_, rfl, advances_quietly hb hb.searchFrom_le (by simp [Stage.rank])
      (by simp [hstage, Stage.rank]) ⟨hhead, ?_⟩ ho.symm⟩
    rw [hb.length_eq]
    exact Nat.min_le_right _ _

theorem filling_advances {head goal : Nat} (hb : r.InBounds capacity)
    (hc : capacity < Text.sizeBound) (hstage : r.stage = .filling head goal) :
    ∃ r', r.step = .ok r' ∧ Advances capacity r r' := by
  have hlen : r.filled ≤ r.buffer.length := hb.length_eq ▸ hb.filled_le
  have hrank : 0 < r.stage.rank := by simp [hstage, Stage.rank]
  obtain ⟨hhead, hgoal⟩ : head + terminator.length ≤ r.filled ∧ goal ≤ capacity := by
    simpa only [StageFits, hstage] using hb.stageFits
  have ho : r.outlook = Stream.fill goal r.held r.stream := by rw [outlook, hstage]
  rw [Stream.fill, length_held hlen] at ho
  rw [step, hstage]
  by_cases hlt : r.filled < goal
  · rw [if_neg (Nat.not_le_of_lt hlt)] at ho
    simp only [if_pos hlt]
    refine readOn_advances hb hc hlt hgoal hrank (by simp [Stage.rank])
      (by simp [hstage, Stage.rank]) (fun e s hs => by rw [ho, hs]) (fun s hs => by rw [ho, hs])
      fun b bs s hs hfits => ⟨⟨Nat.le_add_right_of_le hhead, hgoal⟩, ?_⟩
    show Stream.fill goal (r.afterRead (b :: bs) s).held s = _
    rw [ho, hs, held_afterRead (hb.length_eq ▸ hfits)]
  · exact ⟨_, if_neg hlt, advances_stop hb hrank (Nat.le_succ _)
      (by rw [ho, if_pos (Nat.le_of_not_lt hlt)])⟩

/-- A reader within its bounds breaks none in its next step, and stays within them. -/
theorem InBounds.advances (hb : r.InBounds capacity) (hc : capacity < Text.sizeBound)
    (hrank : 0 < r.stage.rank) : ∃ r', r.step = .ok r' ∧ Advances capacity r r' := by
  cases hstage : r.stage with
  | seeking => exact seeking_advances hb hc hstage
  | lacking => exact lacking_advances hb hc hstage
  | found head => exact found_advances hb hc hstage
  | filling head goal => exact filling_advances hb hc hstage
  | done outcome => simp [hstage, Stage.rank] at hrank

end Step

section Run
variable {capacity : Nat} {ds : List Delivery} {r : BufferReader}

theorem step_of_rank (h : r.stage.rank = 0) : r.step = .ok r := by
  rw [step]
  cases hstage : r.stage <;> simp [hstage, Stage.rank] at h ⊢

/-- What has come of a reader that has kept to its bounds. -/
structure Kept (capacity : Nat) (ds : List Delivery) (r : BufferReader) : Prop where
  inBounds : r.InBounds capacity
  outlook_eq : r.outlook = Stream.takeRequest capacity ⟨ds, []⟩
  spent_le : r.stream.spent ≤ r.paid + Stream.interruptions ds

theorem start_eq (h : capacity ≤ bufferBound) (ds : List Delivery) :
    start capacity ds = .ok (fresh (List.replicate capacity 0) ds) := by
  rw [start, buffer_eq h]
  rfl

theorem start_of_lt (h : bufferBound < capacity) (ds : List Delivery) :
    start capacity ds = .error .tooLarge := by
  rw [start, buffer_of_lt h]
  rfl

theorem kept_fresh (h : capacity ≤ bufferBound) (ds : List Delivery) :
    Kept capacity ds (fresh (List.replicate capacity 0) ds) where
  inBounds := ⟨List.length_replicate, Nat.le_refl _, Nat.zero_le _, trivial⟩
  outlook_eq := by
    have hlength : (fresh (List.replicate capacity 0) ds).buffer.length = capacity :=
      List.length_replicate
    rw [outlook_of_head (.inl rfl), hlength, Stream.takeRequest_eq_afterHead h]
    rfl
  spent_le := Nat.le_refl _

theorem Kept.advance {r' : BufferReader} (h : Kept capacity ds r) (ha : Advances capacity r r') :
    Kept capacity ds r' where
  inBounds := ha.inBounds
  outlook_eq := ha.outlook_eq.trans h.outlook_eq
  spent_le := by
    have hold := h.spent_le
    have hnew := ha.spent_le
    omega

theorem Kept.step_eq (h : Kept capacity ds r) (hc : capacity < Text.sizeBound) :
    ∃ r', r.step = .ok r' ∧ Kept capacity ds r' := by
  by_cases hrank : r.stage.rank = 0
  · exact ⟨r, step_of_rank hrank, h⟩
  · obtain ⟨r', hs, ha⟩ := h.inBounds.advances hc (by omega)
    exact ⟨r', hs, h.advance ha⟩

/-- A reader that takes a step has a buffer. -/
theorem Reached.le_bufferBound (h : Reached capacity ds r) : capacity ≤ bufferBound := by
  induction h with
  | start hs =>
    refine Nat.le_of_not_lt fun hlt => ?_
    rw [start_of_lt hlt] at hs
    cases hs
  | step _ _ ih => exact ih

theorem Reached.lt_sizeBound (h : Reached capacity ds r) : capacity < Text.sizeBound :=
  Nat.lt_of_le_of_lt h.le_bufferBound (by decide)

theorem Reached.kept (h : Reached capacity ds r) : Kept capacity ds r := by
  induction h with
  | start hs =>
    have hc := (Reached.start hs).le_bufferBound
    rw [start_eq hc] at hs
    cases hs
    exact kept_fresh hc ds
  | @step r r' h hs ih =>
    obtain ⟨r'', hs', hk⟩ := ih.step_eq h.lt_sizeBound
    rw [hs] at hs'
    cases hs'
    exact hk

/-- A reader comes to its end, as each step leaves less to do. -/
theorem Reached.exists_done (h : Reached capacity ds r) :
    ∃ r' outcome, Reached capacity ds r' ∧ r'.stage = .done outcome := by
  induction hn : r.toDo using Nat.strongRecOn generalizing r with
  | _ n ih =>
    cases hstage : r.stage with
    | done outcome => exact ⟨r, outcome, h, hstage⟩
    | _ =>
      obtain ⟨r', hs, ha⟩ := h.kept.inBounds.advances h.lt_sizeBound (by simp [hstage, Stage.rank])
      exact ih _ (hn ▸ ha.toDo_lt) (h.step hs) rfl

/-- With any capacity that a buffer can have, whatever is delivered and whatever length is declared:
no step of the reader takes a slice beyond its buffer, offers an empty one to a read or adds up to
more than 64 bits hold, its places stay in order, and it comes to its end, where it has taken the
same bytes by the same reads as the reader on a list. These are at most as many as the capacity has
bytes and one more, apart from interrupted ones. -/
theorem takeRequest_in_bounds (hc : capacity ≤ bufferBound) (ds : List Delivery) :
    (∀ r, Reached capacity ds r → r.InBounds capacity ∧ ∃ r', r.step = .ok r') ∧
    (∃ r, Reached capacity ds r ∧ r.stage = .done (Stream.takeRequest capacity ⟨ds, []⟩).1 ∧
      r.stream = (Stream.takeRequest capacity ⟨ds, []⟩).2) ∧
    (Stream.takeRequest capacity ⟨ds, []⟩).2.asked.length ≤
      capacity + 1 + Stream.interruptions ds := by
  obtain ⟨r, outcome, hr, hstage⟩ := Reached.exists_done (.start (start_eq hc ds))
  have hk := hr.kept
  have hend : (outcome, r.stream) = Stream.takeRequest capacity ⟨ds, []⟩ := by
    rw [← hk.outlook_eq, outlook, hstage]
  refine ⟨fun r hr => ?_, ⟨r, hr, ?_, ?_⟩, ?_⟩
  · obtain ⟨r', hs, -⟩ := hr.kept.step_eq hr.lt_sizeBound
    exact ⟨hr.kept.inBounds, r', hs⟩
  · rw [hstage, ← hend]
  · rw [← hend]
  · have hspent := hk.spent_le
    rw [paid, if_pos (by rw [hstage]; rfl), hk.inBounds.length_eq, Stream.spent] at hspent
    rw [← hend]
    exact Nat.le_trans (Nat.le_add_right _ _) hspent

/-- More than the declared body may have come along with the head. -/
theorem takeRequest_in_bounds_of_excess :
    let raw := Utf8.encode "G\r\nContent-Length:1\r\n\r\nabc".toList
    30 ≤ bufferBound ∧
    ∃ r, Reached 30 [.data raw] r ∧ r.stage = .filling 19 24 ∧ r.filled = 26 ∧ r.InBounds 30 ∧
      ∃ r', r.step = .ok r' := by
  intro raw
  have hc : 30 ≤ bufferBound := by decide
  have hstart : Reached 30 [.data raw] _ := .start (start_eq hc _)
  have hr : Reached 30 [.data raw] _ := (((hstart.step rfl).step rfl).step rfl).step rfl
  obtain ⟨hb, hs⟩ := (takeRequest_in_bounds hc _).1 _ hr
  exact ⟨hc, _, hr, rfl, rfl, hb, hs⟩

/-- One byte more than a buffer can have, and the reader stops before its first step, although what
is delivered is a complete request. -/
theorem not_reached_beyond_bufferBound :
    let ds : List Delivery :=
      [.data (Utf8.encode "GET / HTTP/1.1\r\nContent-Length: 0\r\n\r\n".toList)]
    bufferBound + 1 < Text.sizeBound ∧ start (bufferBound + 1) ds = .error .tooLarge ∧
      ¬ ∃ r outcome, Reached (bufferBound + 1) ds r ∧ r.stage = .done outcome := by
  intro ds
  refine ⟨by decide, start_of_lt (Nat.lt_succ_self _) ds, fun ⟨r, outcome, hr, _⟩ => ?_⟩
  exact Nat.not_succ_le_self _ hr.le_bufferBound

end Run
end BufferReader
end WebHost.Http
