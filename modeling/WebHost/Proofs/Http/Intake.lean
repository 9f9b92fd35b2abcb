import WebHost.Http.Intake
import WebHost.Proofs.Http.HeadEnd

/-! Taking a request off a stream, read by read. The search for the end of the head leaves out what
has been searched before, and finds the first terminator of everything held. The reads that are made
get exactly the bytes that are taken; none is made once the head is complete, except for the body
that it declares, and those ask for no more than that. -/
namespace WebHost.Http

namespace Stream

/-- The least place where a terminator stands. -/
def firstTerminator? (held : Bytes) : Option Nat :=
  (List.range held.length).find? fun i => terminator.isPrefixOf (held.drop i)

/-- Looking at every place from the front on finds what the search of the parser finds. -/
theorem firstTerminator?_eq_headEnd? (held : Bytes) : firstTerminator? held = headEnd? held := by
  cases h : headEnd? held with
  | none =>
    refine List.find?_eq_none.mpr fun i _ => ?_
    rw [List.isPrefixOf_iff_prefix]
    exact headEnd?_eq_none_iff.mp h i
  | some n =>
    obtain ⟨hn, hbefore⟩ := headEnd?_eq_some_iff.mp h
    have hlen := headEnd?_add_le_length h
    have hpos : 0 < terminator.length := by decide
    refine List.find?_range_eq_some.mpr ⟨?_, ?_, fun i hi => ?_⟩
    · rwa [List.isPrefixOf_iff_prefix]
    · exact List.mem_range.mpr (by omega)
    · rw [Bool.not_eq_true', ← Bool.not_eq_true, List.isPrefixOf_iff_prefix]
      exact hbefore i hi

/-- Reads until `held` has a terminator, which is looked for at every place after every read. -/
def rescanHead (capacity : Nat) (held : Bytes) (s : Stream) :
    Except IntakeError (Nat × Bytes) × Stream :=
  match firstTerminator? held with
  | some h => (.ok (h, held), s)
  | none =>
    if capacity ≤ held.length then (.error (.malformed .missingTerminator), s)
    else
      match s.receive (capacity - held.length) with
      | (.error e, s') => (.error (.io e), s')
      | (.ok [], s') =>
        (.error (if held.isEmpty then .closed else .malformed .missingTerminator), s')
      | (.ok (b :: bs), s') => rescanHead capacity (held ++ b :: bs) s'
termination_by capacity - held.length
decreasing_by simp only [List.length_append, List.length_cons]; omega

/-- The bytes of one request, taken by a reader that searches all it holds after every read. -/
def takeRescanning (capacity : Nat) (s : Stream) : Except IntakeError Bytes × Stream :=
  if bufferBound < capacity then (.error .noBuffer, s)
  else
    match rescanHead capacity [] s with
    | (.error e, s') => (.error e, s')
    | (.ok (h, held), s') =>
      match declaredLength (held.take h) with
      | .error e => (.error (.malformed e), s')
      | .ok none => (.ok held, s')
      | .ok (some n) => fill (min (h + terminator.length + n) capacity) held s'

/-- Nothing is missed by a search that starts where no terminator stands before. -/
theorem seekHead_eq_rescanHead {capacity start : Nat} {held : Bytes} {s : Stream}
    (hs : headEnd? held = headEndFrom start (held.drop start)) :
    seekHead capacity held start s = rescanHead capacity held s := by
  rw [← firstTerminator?_eq_headEnd?] at hs
  fun_induction seekHead capacity held start s with
  | case1 held start s h hf => rw [rescanHead, hs, hf]
  | case2 held start s hf hle => rw [rescanHead, hs, hf]; simp [hle]
  | case3 held start s hf hle e s' he => rw [rescanHead, hs, hf]; simp [hle, he]
  | case4 held start s hf hle s' he => rw [rescanHead, hs, hf]; simp [hle, he]
  | case5 held start s hf hle b bs s' he ih =>
    have hnone : headEnd? held = none :=
      (firstTerminator?_eq_headEnd? held).symm.trans (hs.trans hf)
    rw [ih ((firstTerminator?_eq_headEnd? _).trans (headEnd?_append_of_none hnone _))]
    conv => rhs; rw [rescanHead, hs, hf]
    simp [hle, he]

/-- The search that goes on where it left off and the search of everything held are the same reader:
they make the same reads of the same sizes, leave the same on the stream, and take the same bytes or
fail alike. -/
theorem takeRequest_eq_takeRescanning (capacity : Nat) (s : Stream) :
    takeRequest capacity s = takeRescanning capacity s := by
  rw [takeRequest, seekHead_eq_rescanHead rfl]
  rfl

/-- Without a buffer nothing is read. -/
theorem takeRequest_of_lt {capacity : Nat} (h : bufferBound < capacity) (s : Stream) :
    takeRequest capacity s = (.error .noBuffer, s) := if_pos h

/-- A read that was made: the room it had, and what came of it. -/
structure Reading where
  room : Nat
  got : Except IoError Bytes

namespace Reading

def bytes (r : Reading) : Bytes :=
  match r.got with
  | .ok bs => bs
  | .error _ => []

/-- Nothing came although there was room, or nothing in time. -/
def EndsStream (r : Reading) : Prop :=
  0 < r.room ∧ match r.got with
    | .ok bs => bs = []
    | .error e => e.kind = .wouldBlock ∨ e.kind = .timedOut

end Reading

/-- The bytes that deliveries still hold. -/
def content (ds : List Delivery) : Bytes :=
  ds.flatMap fun
    | .data bs => bs
    | .failure _ => []

/-- The reads of these sizes in turn. -/
def readings : List Nat → Stream → List Reading
  | [], _ => []
  | room :: rooms, s => ⟨room, (s.read room).1⟩ :: readings rooms (s.read room).2

/-- What reads got together. -/
def gathered (made : List Reading) : Bytes := made.flatMap Reading.bytes

/-- `P` holds of each read, with the bytes held when it was made and the room it had. -/
def EachRead (P : Bytes → Nat → Prop) : Bytes → List Reading → Prop
  | _, [] => True
  | held, r :: made => P held r.room ∧ EachRead P (held ++ r.bytes) made

/-- From one stream to another by these reads. -/
inductive Reads : Stream → List Reading → Stream → Prop
  | nil (s : Stream) : Reads s [] s
  | cons (room : Nat) {s t : Stream} {made : List Reading} (h : Reads (s.read room).2 made t) :
      Reads s (⟨room, (s.read room).1⟩ :: made) t

section Readings
variable {P Q : Bytes → Nat → Prop} {held : Bytes} {made more : List Reading} {s t u : Stream}

@[simp] theorem gathered_nil : gathered [] = [] := rfl

@[simp] theorem gathered_cons (r : Reading) (made : List Reading) :
    gathered (r :: made) = r.bytes ++ gathered made := rfl

@[simp] theorem gathered_append (made more : List Reading) :
    gathered (made ++ more) = gathered made ++ gathered more := List.flatMap_append ..

theorem Reads.append (h : Reads s made t) (h' : Reads t more u) : Reads s (made ++ more) u := by
  induction h with
  | nil => exact h'
  | cons room _ ih => exact .cons room (ih h')

theorem asked_read (room : Nat) (s : Stream) : (s.read room).2.asked = room :: s.asked := by
  unfold read
  dsimp only
  split
  · rfl
  · rfl
  · split <;> rfl

/-- The sizes that a stream has been asked for tell which reads were made. -/
theorem Reads.asked_eq (h : Reads s made t) :
    t.asked = (made.map Reading.room).reverse ++ s.asked := by
  induction h with
  | nil => rfl
  | cons room _ ih => simp [ih, asked_read]

theorem Reads.readings_eq (h : Reads s made t) : readings (made.map Reading.room) s = made := by
  induction h with
  | nil => rfl
  | cons room _ ih => simp only [List.map_cons, readings, ih]

/-- A read takes what it gets from what the stream holds. -/
theorem content_read (room : Nat) (s : Stream) :
    content s.deliveries =
      Reading.bytes ⟨room, (s.read room).1⟩ ++ content (s.read room).2.deliveries := by
  obtain ⟨ds, asked⟩ := s
  cases ds with
  | nil => rfl
  | cons d ds =>
    cases d with
    | failure e => rfl
    | data bs =>
      cases hl : bs.drop room with
      | nil => simp [read, hl, content, Reading.bytes]
      | cons b left =>
        simp only [read, hl, content, Reading.bytes, List.flatMap_cons, ← List.append_assoc]
        rw [← hl, List.take_append_drop]

theorem length_bytes_read_le (room : Nat) (s : Stream) :
    (Reading.bytes ⟨room, (s.read room).1⟩).length ≤ room := by
  obtain ⟨ds, asked⟩ := s
  cases ds with
  | nil => exact Nat.zero_le _
  | cons d ds =>
    cases d with
    | failure e => exact Nat.zero_le _
    | data bs =>
      cases hl : bs.drop room with
      | nil => simpa [read, hl, Reading.bytes] using List.drop_eq_nil_iff.mp hl
      | cons b left =>
        simp only [read, hl, Reading.bytes, List.length_take]
        exact Nat.min_le_left _ _

theorem Reads.content_eq (h : Reads s made t) :
    content s.deliveries = gathered made ++ content t.deliveries := by
  induction h with
  | nil => rfl
  | cons room _ ih => rw [content_read room, ih, gathered_cons, List.append_assoc]

theorem eachRead_append :
    EachRead P held (made ++ more) ↔
      EachRead P held made ∧ EachRead P (held ++ gathered made) more := by
  induction made generalizing held with
  | nil => simp [EachRead]
  | cons r made ih => simp [EachRead, ih, and_assoc]

theorem EachRead.mono (h : EachRead P held made) (hi : ∀ held room, P held room → Q held room) :
    EachRead Q held made := by
  induction made generalizing held with
  | nil => trivial
  | cons r made ih => exact ⟨hi _ _ h.1, ih h.2⟩

/-- Reads that have no room beyond a limit get nothing beyond it. -/
theorem Reads.length_le {limit : Nat} (h : Reads s made t) (hl : held.length ≤ limit)
    (hm : EachRead (fun held room => held.length + room ≤ limit) held made) :
    (held ++ gathered made).length ≤ limit := by
  induction h generalizing held with
  | nil => simpa using hl
  | @cons room s t made _ ih =>
    have hb := length_bytes_read_le room s
    obtain ⟨hroom, hmade⟩ := hm
    rw [gathered_cons, ← List.append_assoc]
    refine ih ?_ hmade
    dsimp only at hroom
    rw [List.length_append]
    omega

end Readings

section Receive
variable {room : Nat} {bs : Bytes} {s s' : Stream}

/-- What a number of reads with the same room got of a stream, of which only the last one could get
something; if it got nothing, the stream is at its end or late. -/
structure Received (room : Nat) (bs : Bytes) (s s' : Stream) (made : List Reading) (last : Reading) :
    Prop where
  reads : Reads s (made ++ [last]) s'
  gathered_eq : gathered made = []
  bytes_eq : last.bytes = bs
  room_eq : ∀ r ∈ made ++ [last], r.room = room
  endsStream : 0 < room → bs = [] → last.EndsStream

theorem received_of_read {got : Except IoError Bytes} (h : s.read room = (got, s'))
    (hb : Reading.bytes ⟨room, got⟩ = bs)
    (he : 0 < room → bs = [] → Reading.EndsStream ⟨room, got⟩) :
    Received room bs s s' [] ⟨room, got⟩ := by
  have hread := Reads.cons room (.nil (s.read room).2)
  rw [h] at hread
  exact ⟨hread, rfl, hb, by simp, he⟩

theorem Received.interrupted {made : List Reading} {last : Reading} {asked : List Nat}
    {ds : List Delivery} (e : IoError) (h : Received room bs ⟨ds, room :: asked⟩ s' made last) :
    Received room bs ⟨.failure e :: ds, asked⟩ s' (⟨room, .error e⟩ :: made) last where
  reads := .cons room h.reads
  gathered_eq := h.gathered_eq
  bytes_eq := h.bytes_eq
  room_eq := by simpa using h.room_eq
  endsStream := h.endsStream

theorem receiveFrom_received {asked : List Nat} {ds : List Delivery}
    (h : receiveFrom room asked ds = (.ok bs, s')) :
    ∃ made last, Received room bs ⟨ds, asked⟩ s' made last := by
  induction ds generalizing asked with
  | nil => exact ⟨[], _, received_of_read h rfl fun hr hb => ⟨hr, hb⟩⟩
  | cons d ds ih =>
    cases d with
    | data bs' => exact ⟨[], _, received_of_read h rfl fun hr hb => ⟨hr, hb⟩⟩
    | failure e =>
      rw [receiveFrom] at h
      split at h
      · obtain ⟨made, last, hmade⟩ := ih h
        exact ⟨_, last, hmade.interrupted e⟩
      · next hk =>
        simp only [Prod.mk.injEq, Except.ok.injEq] at h
        obtain ⟨rfl, rfl⟩ := h
        exact ⟨[], ⟨room, .error e⟩, received_of_read rfl rfl fun hr _ => ⟨hr, .inl hk⟩⟩
      · next hk =>
        simp only [Prod.mk.injEq, Except.ok.injEq] at h
        obtain ⟨rfl, rfl⟩ := h
        exact ⟨[], ⟨room, .error e⟩, received_of_read rfl rfl fun hr _ => ⟨hr, .inr hk⟩⟩
      · cases h

theorem Received.gathered_all {made : List Reading} {last : Reading}
    (h : Received room bs s s' made last) : gathered (made ++ [last]) = bs := by
  simp [h.gathered_eq, h.bytes_eq]

/-- The same bytes are held at each of the reads. -/
theorem Received.eachRead {P : Bytes → Nat → Prop} {held : Bytes} {made : List Reading}
    {last : Reading} (h : Received room bs s s' made last) (hp : P held room) :
    EachRead P held (made ++ [last]) := by
  have hroom := h.room_eq
  have hnil := h.gathered_eq
  clear h
  induction made with
  | nil => simpa [EachRead, hroom last (by simp)] using hp
  | cons r made ih =>
    rw [gathered_cons, List.append_eq_nil_iff] at hnil
    refine ⟨hroom r (by simp) ▸ hp, ?_⟩
    rw [hnil.1, List.append_nil]
    exact ih (fun r' hr' => hroom r' (by simp_all)) hnil.2

/-- The reads up to the end of the head: at each of them the head is not yet there, and all the room
that is left is offered. -/
theorem rescanHead_reads {capacity n : Nat} {held held' : Bytes}
    (h : rescanHead capacity held s = (.ok (n, held'), s')) :
    headEnd? held' = some n ∧ ∃ made, Reads s made s' ∧ held' = held ++ gathered made ∧
      EachRead (fun held room => headEnd? held = none ∧ held.length + room = capacity) held made := by
  fun_induction rescanHead capacity held s with
  | case1 held s n' hn =>
    simp only [Prod.mk.injEq, Except.ok.injEq] at h
    obtain ⟨⟨rfl, rfl⟩, rfl⟩ := h
    rw [firstTerminator?_eq_headEnd?] at hn
    exact ⟨hn, [], .nil s, by simp, trivial⟩
  | case5 held s hn hle b bs t he ih =>
    obtain ⟨hn', more, hmore, rfl, heach⟩ := ih h
    obtain ⟨made, last, hmade⟩ := receiveFrom_received he
    rw [firstTerminator?_eq_headEnd?] at hn
    refine ⟨hn', made ++ [last] ++ more, hmade.reads.append hmore, ?_, ?_⟩
    · rw [gathered_append, hmade.gathered_all, List.append_assoc]
    · exact eachRead_append.mpr ⟨hmade.eachRead ⟨hn, by omega⟩, by rwa [hmade.gathered_all]⟩
  | _ => simp at h

/-- The reads of a body: each offers the room up to the goal, and the goal is reached or the stream
ends. -/
theorem fill_reads {goal : Nat} {held held' : Bytes} (h : fill goal held s = (.ok held', s')) :
    ∃ made, Reads s made s' ∧ held' = held ++ gathered made ∧
      EachRead (fun held room => held.length + room = goal) held made ∧
      (goal ≤ held'.length ∨ ∃ last ∈ made.getLast?, last.EndsStream) := by
  fun_induction fill goal held s with
  | case1 held s hle =>
    obtain ⟨rfl, rfl⟩ : held = held' ∧ s = s' := by simpa using h
    exact ⟨[], .nil s, by simp, trivial, .inl hle⟩
  | case2 held s hle e t he => simp at h
  | case3 held s hle t he =>
    obtain ⟨rfl, rfl⟩ : held = held' ∧ t = s' := by simpa using h
    obtain ⟨made, last, hmade⟩ := receiveFrom_received he
    refine ⟨made ++ [last], hmade.reads, by simp [hmade.gathered_all], hmade.eachRead (by omega), ?_⟩
    exact .inr ⟨last, by simp, hmade.endsStream (by omega) rfl⟩
  | case4 held s hle b bs t he ih =>
    obtain ⟨more, hmore, rfl, heach, hend⟩ := ih h
    obtain ⟨made, last, hmade⟩ := receiveFrom_received he
    refine ⟨made ++ [last] ++ more, hmade.reads.append hmore, ?_, ?_, ?_⟩
    · rw [gathered_append, hmade.gathered_all, List.append_assoc]
    · exact eachRead_append.mpr ⟨hmade.eachRead (by omega), by rwa [hmade.gathered_all]⟩
    · refine hend.imp_right fun ⟨last', hlast', hends⟩ => ⟨last', ?_, hends⟩
      rw [List.getLast?_append, Option.mem_def.mp hlast']
      rfl

end Receive

/-- The reads of a request are those of its head and, if that declares a body, those of the body. -/
theorem takeRequest_reads {capacity : Nat} {raw : Bytes} {s s' : Stream}
    (h : takeRequest capacity s = (.ok raw, s')) :
    ∃ n head body, headEnd? (gathered head) = some n ∧ Reads s (head ++ body) s' ∧
      raw = gathered head ++ gathered body ∧
      EachRead (fun held room => headEnd? held = none ∧ held.length + room = capacity) [] head ∧
      (declaredLength ((gathered head).take n) = .ok none ∧ body = [] ∨
        ∃ k, declaredLength ((gathered head).take n) = .ok (some k) ∧
          EachRead (fun held room => held.length + room = min (n + terminator.length + k) capacity)
            (gathered head) body ∧
          (min (n + terminator.length + k) capacity ≤ raw.length ∨
            ∃ last ∈ body.getLast?, last.EndsStream)) := by
  rw [takeRequest, seekHead_eq_rescanHead rfl] at h
  split at h
  · simp at h
  split at h
  · simp at h
  · next n held t hhead =>
    obtain ⟨hn, head, hreads, hheld, heach⟩ := rescanHead_reads hhead
    rw [List.nil_append] at hheld
    subst hheld
    split at h
    · simp at h
    · next hdec =>
      obtain ⟨rfl, rfl⟩ : gathered head = raw ∧ t = s' := by simpa using h
      exact ⟨n, head, [], hn, by simpa using hreads, by simp, heach, .inl ⟨hdec, rfl⟩⟩
    · next k hdec =>
      obtain ⟨body, hbody, hraw, heach', hend⟩ := fill_reads h
      exact ⟨n, head, body, hn, hreads.append hbody, hraw, heach, .inr ⟨k, hdec, heach', hend⟩⟩

theorem Reads.readings_asked {ds : List Delivery} {made : List Reading} {s : Stream}
    (h : Reads ⟨ds, []⟩ made s) : readings s.asked.reverse ⟨ds, []⟩ = made := by
  rw [h.asked_eq, List.append_nil, List.reverse_reverse, h.readings_eq]

/-- What is taken is the beginning of what the stream holds, no byte of it is lost or added, and no
byte but these is off the stream: the reads that were made, which are those of the sizes that the
stream has been asked for, got these bytes together. They fit into the capacity and hold a complete
head. If the head declares no length, then at each of the reads it was still incomplete. If it
declares one, then the body is there as far as there is room, or the last read came to the end of
the stream or was late; and no read with the head complete had room for more than that body. -/
theorem takeRequest_takes_beginning {capacity : Nat} {ds : List Delivery} {raw : Bytes} {s : Stream}
    (h : takeRequest capacity ⟨ds, []⟩ = (.ok raw, s)) :
    let made := readings s.asked.reverse ⟨ds, []⟩
    Reads ⟨ds, []⟩ made s ∧ content ds = raw ++ content s.deliveries ∧ gathered made = raw ∧
      raw.length ≤ capacity ∧
      ∃ n, headEnd? raw = some n ∧
        (declaredLength (raw.take n) = .ok none ∧
            EachRead (fun held _ => headEnd? held = none) [] made ∨
          ∃ k, declaredLength (raw.take n) = .ok (some k) ∧
            (min capacity (n + terminator.length + k) ≤ raw.length ∨
              ∃ last ∈ made.getLast?, last.EndsStream) ∧
            EachRead (fun held room => headEnd? held ≠ none →
              held.length + room ≤ min capacity (n + terminator.length + k)) [] made) := by
  obtain ⟨n, head, body, hn, hreads, rfl, hhead, hbody⟩ := takeRequest_reads h
  have hlen := headEnd?_add_le_length hn
  have htake : (gathered head ++ gathered body).take n = (gathered head).take n :=
    List.take_append_of_le_length (by omega)
  rw [hreads.readings_asked]
  refine ⟨hreads, ?_, gathered_append _ _, ?_, n, headEnd?_mono (List.prefix_append _ _) hn, ?_⟩
  · rw [← gathered_append]
    exact hreads.content_eq
  · have hroom : EachRead (fun held room => held.length + room ≤ capacity) [] (head ++ body) := by
      refine eachRead_append.mpr ⟨hhead.mono fun held room hp => by omega, ?_⟩
      rcases hbody with ⟨-, rfl⟩ | ⟨k, -, heach, -⟩
      · trivial
      · exact heach.mono fun held room hp => by omega
    have hle : ([] ++ gathered (head ++ body)).length ≤ capacity :=
      hreads.length_le (Nat.zero_le _) hroom
    simpa using hle
  · rw [htake]
    rcases hbody with ⟨hdec, rfl⟩ | ⟨k, hdec, heach, hend⟩
    · refine .inl ⟨hdec, ?_⟩
      rw [List.append_nil]
      exact hhead.mono fun held room hp => hp.1
    · rw [Nat.min_comm] at heach hend
      refine .inr ⟨k, hdec, ?_, ?_⟩
      · refine hend.imp_right fun ⟨last, hlast, hends⟩ => ⟨last, ?_, hends⟩
        rw [List.getLast?_append, Option.mem_def.mp hlast]
        rfl
      · refine eachRead_append.mpr ⟨hhead.mono fun held room hp hne => absurd hp.1 hne, ?_⟩
        exact heach.mono fun held room hp _ => Nat.le_of_eq hp

/-- The terminator comes in two parts with an interruption between, and the body is cut short by a
timeout. What is delivered after it stays on the stream. -/
theorem takeRequest_takes_beginning_of_late_body :
    let first := Utf8.encode "A\r\nContent-Length: 3\r\n\r".toList
    let ds : List Delivery := [.data first, .failure FaultKind.interrupted.error, .data [10, 97],
      .failure FaultKind.timedOut.error, .data [98]]
    ∃ s, takeRequest 40 ⟨ds, []⟩ = (.ok (first ++ [10, 97]), s) ∧
      content ds = first ++ [10, 97] ++ content s.deliveries ∧
      ∃ last ∈ (readings s.asked.reverse ⟨ds, []⟩).getLast?, last.EndsStream := by
  intro first ds
  have hfirst : seekHead 40 [] 0 ⟨ds, []⟩ = seekHead 40 first 0 ⟨ds.drop 1, [40]⟩ := by
    rw [seekHead]
    rfl
  have hsecond : seekHead 40 first 0 ⟨ds.drop 1, [40]⟩ =
      seekHead 40 (first ++ [10, 97]) 20 ⟨ds.drop 3, [17, 17, 40]⟩ := by
    rw [seekHead]
    rfl
  have hhead : seekHead 40 [] 0 ⟨ds, []⟩ =
      (.ok (20, first ++ [10, 97]), ⟨ds.drop 3, [17, 17, 40]⟩) := by
    rw [hfirst, hsecond, seekHead]
    rfl
  have hbody : fill 27 (first ++ [10, 97]) ⟨ds.drop 3, [17, 17, 40]⟩ =
      (.ok (first ++ [10, 97]), ⟨ds.drop 4, [2, 17, 17, 40]⟩) := by
    rw [fill]
    rfl
  have hdec : declaredLength ((first ++ [10, 97]).take 20) = .ok (some 3) := rfl
  have htaken : takeRequest 40 ⟨ds, []⟩ =
      (.ok (first ++ [10, 97]), ⟨ds.drop 4, [2, 17, 17, 40]⟩) := by
    rw [takeRequest, hhead]
    simp only [hdec]
    exact hbody
  obtain ⟨-, hcontent, -, -, n, hn, hdeclared⟩ := takeRequest_takes_beginning htaken
  obtain rfl : n = 20 := Option.some.inj (hn.symm.trans rfl)
  refine ⟨_, htaken, hcontent, ?_⟩
  rcases hdeclared with ⟨hnone, -⟩ | ⟨k, hk, hend, -⟩
  · rw [hdec] at hnone
    cases hnone
  · obtain rfl : k = 3 := by simpa using hk.symm.trans hdec
    exact hend.resolve_left (by decide)

end Stream
end WebHost.Http
