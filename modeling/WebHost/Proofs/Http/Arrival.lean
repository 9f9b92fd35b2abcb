import WebHost.Proofs.Http.Intake

/-! What arrives on a connection, and what breaks it off. The bytes that arrive before the stream
ends or is late decide whether there is anything to answer and whether there is a head in it; and a
read that fails otherwise than by an interruption or a timeout breaks the taking off. -/
namespace WebHost

/-- The read is repeated, or it counts as the end of the stream. -/
def FaultKind.isPassing : FaultKind → Bool
  | .interrupted | .wouldBlock | .timedOut => true
  | _ => false

namespace Http.Stream

/-- The bytes that arrive before the stream ends, is late or breaks off. -/
def arriving : List Delivery → Bytes
  | .data (b :: bs) :: ds => b :: bs ++ arriving ds
  | .failure e :: ds => if e.kind = .interrupted then arriving ds else []
  | _ => []

/-- The failure of the read, unless it is a passing one. -/
def Reading.break? (r : Reading) : Option IoError :=
  match r.got with
  | .error e => if e.kind.isPassing then none else some e
  | .ok _ => none

/-- The failure that has broken off the reads, if one has. -/
def broken? (made : List Reading) : Option IoError := made.findSome? Reading.break?

/-- Reads that have not been broken off may go on. -/
theorem broken?_append {made : List Reading} (h : broken? made = none) (more : List Reading) :
    broken? (made ++ more) = broken? more := by
  rw [broken?, List.findSome?_append, ← broken?, ← broken?, h, Option.none_or]

section Receive
variable {room : Nat} {asked : List Nat} {ds : List Delivery} {s s' : Stream}

theorem receiveFrom_failure (room : Nat) (asked : List Nat) (e : IoError) (ds : List Delivery) :
    receiveFrom room asked (.failure e :: ds) =
      if e.kind = .interrupted then receiveFrom room (room :: asked) ds
      else if e.kind.isPassing then (.ok [], ⟨ds, room :: asked⟩)
      else (.error e, ⟨ds, room :: asked⟩) := by
  obtain ⟨kind, text⟩ := e
  cases kind <;> rfl

/-- Delivered bytes are handed out as far as there is room, and the rest stays. -/
theorem receiveFrom_data (hr : 0 < room) (asked : List Nat) (b : UInt8) (bs : Bytes)
    (ds : List Delivery) :
    ∃ got s', receiveFrom room asked (.data (b :: bs) :: ds) = (.ok (b :: got), s') ∧
      got.length < room ∧ b :: bs ++ arriving ds = b :: got ++ arriving s'.deliveries := by
  cases hl : (b :: bs).drop room with
  | nil =>
    have hlen : (b :: bs).length ≤ room := List.drop_eq_nil_iff.mp hl
    exact ⟨bs, ⟨ds, room :: asked⟩, by simp [receiveFrom, read, hl], hlen, rfl⟩
  | cons c left =>
    obtain ⟨room, rfl⟩ : ∃ n, room = n + 1 := ⟨room - 1, by omega⟩
    refine ⟨bs.take room, ⟨.data (c :: left) :: ds, (room + 1) :: asked⟩,
      by simp [receiveFrom, read, hl], by rw [List.length_take]; omega, ?_⟩
    rw [arriving, ← hl, ← List.append_assoc, ← List.take_succ_cons, List.take_append_drop]

/-- A receive gets the next bytes that arrive, and something if there is something. -/
theorem receiveFrom_arriving (hr : 0 < room) (asked : List Nat) (ds : List Delivery) :
    match receiveFrom room asked ds with
    | (.ok (b :: bs), s') =>
      (b :: bs).length ≤ room ∧ arriving ds = b :: bs ++ arriving s'.deliveries
    | _ => arriving ds = [] := by
  induction ds generalizing asked with
  | nil => rfl
  | cons d ds ih =>
    cases d with
    | data bs =>
      cases bs with
      | nil => simp [receiveFrom, read, arriving]
      | cons b bs =>
        obtain ⟨got, s', hget, hlen, hrest⟩ := receiveFrom_data hr asked b bs ds
        rw [hget]
        exact ⟨hlen, hrest⟩
    | failure e =>
      rw [receiveFrom_failure, arriving]
      by_cases hi : e.kind = .interrupted
      · rw [if_pos hi, if_pos hi]
        exact ih (room :: asked)
      · rw [if_neg hi, if_neg hi]
        by_cases hp : e.kind.isPassing <;> simp [hp]

/-- The reads of a receive break off exactly if the receive fails. -/
theorem receiveFrom_broken (room : Nat) (asked : List Nat) (ds : List Delivery) :
    ∃ made, Reads ⟨ds, asked⟩ made (receiveFrom room asked ds).2 ∧
      broken? made = match (receiveFrom room asked ds).1 with
        | .error e => some e
        | .ok _ => none := by
  induction ds generalizing asked with
  | nil => exact ⟨_, .cons room (.nil _), rfl⟩
  | cons d ds ih =>
    cases d with
    | data bs =>
      refine ⟨_, .cons room (.nil _), ?_⟩
      cases hl : bs.drop room <;> simp [broken?, Reading.break?, receiveFrom, read, hl]
    | failure e =>
      rw [receiveFrom_failure]
      by_cases hi : e.kind = .interrupted
      · obtain ⟨made, hmade, hbroken⟩ := ih (room :: asked)
        have hpass : Reading.break? ⟨room, .error e⟩ = none := by
          simp [Reading.break?, hi, FaultKind.isPassing]
        rw [if_pos hi]
        refine ⟨⟨room, .error e⟩ :: made, .cons room hmade, ?_⟩
        rw [← hbroken, broken?, List.findSome?_cons, hpass]
        rfl
      · rw [if_neg hi]
        refine ⟨[⟨room, .error e⟩], ?_, ?_⟩
        · by_cases hp : e.kind.isPassing
          · rw [if_pos hp]
            exact .cons room (.nil _)
          · rw [if_neg hp]
            exact .cons room (.nil _)
        · by_cases hp : e.kind.isPassing <;> simp [broken?, Reading.break?, hp]

theorem arriving_of_receive_nil (hr : 0 < room) (h : s.receive room = (.ok [], s')) :
    arriving s.deliveries = [] := by
  have hgot := receiveFrom_arriving hr s.asked s.deliveries
  rwa [show receiveFrom room s.asked s.deliveries = _ from h] at hgot

theorem arriving_of_receive_cons (hr : 0 < room) {b : UInt8} {bs : Bytes}
    (h : s.receive room = (.ok (b :: bs), s')) :
    (b :: bs).length ≤ room ∧ arriving s.deliveries = b :: bs ++ arriving s'.deliveries := by
  have hgot := receiveFrom_arriving hr s.asked s.deliveries
  rwa [show receiveFrom room s.asked s.deliveries = _ from h] at hgot

theorem reads_of_receive_ok {bs : Bytes} (h : s.receive room = (.ok bs, s')) :
    ∃ made, Reads s made s' ∧ broken? made = none := by
  obtain ⟨made, hmade, hbroken⟩ := receiveFrom_broken room s.asked s.deliveries
  have h : receiveFrom room s.asked s.deliveries = (.ok bs, s') := h
  rw [h] at hmade hbroken
  exact ⟨made, hmade, hbroken⟩

theorem reads_of_receive_error {e : IoError} (h : s.receive room = (.error e, s')) :
    ∃ made, Reads s made s' ∧ broken? made = some e := by
  obtain ⟨made, hmade, hbroken⟩ := receiveFrom_broken room s.asked s.deliveries
  have h : receiveFrom room s.asked s.deliveries = (.error e, s') := h
  rw [h] at hmade hbroken
  exact ⟨made, hmade, hbroken⟩

end Receive

/-- The failure that is handed on by a reader, if one is. -/
def handedOn? {α : Type} : Except IntakeError α → Option IoError
  | .error (.io e) => some e
  | _ => none

/-- The reads of a head break off exactly if the search for it hands on a failure. -/
theorem rescanHead_broken (capacity : Nat) (held : Bytes) (s : Stream) :
    ∃ made, Reads s made (rescanHead capacity held s).2 ∧
      broken? made = handedOn? (rescanHead capacity held s).1 := by
  fun_induction rescanHead capacity held s with
  | case1 held s h hf => exact ⟨[], .nil s, rfl⟩
  | case2 held s hf hle => exact ⟨[], .nil s, rfl⟩
  | case3 held s hf hle e s' he => exact reads_of_receive_error he
  | case4 held s hf hle s' he =>
    obtain ⟨made, hmade, hbroken⟩ := reads_of_receive_ok he
    refine ⟨made, hmade, hbroken.trans ?_⟩
    split <;> rfl
  | case5 held s hf hle b bs s' he ih =>
    obtain ⟨made, hmade, hbroken⟩ := reads_of_receive_ok he
    obtain ⟨more, hmore, hbroken'⟩ := ih
    exact ⟨made ++ more, hmade.append hmore, (broken?_append hbroken more).trans hbroken'⟩

theorem fill_broken (goal : Nat) (held : Bytes) (s : Stream) :
    ∃ made, Reads s made (fill goal held s).2 ∧ broken? made = handedOn? (fill goal held s).1 := by
  fun_induction fill goal held s with
  | case1 held s hle => exact ⟨[], .nil s, rfl⟩
  | case2 held s hle e s' he => exact reads_of_receive_error he
  | case3 held s hle s' he => exact reads_of_receive_ok he
  | case4 held s hle b bs s' he ih =>
    obtain ⟨made, hmade, hbroken⟩ := reads_of_receive_ok he
    obtain ⟨more, hmore, hbroken'⟩ := ih
    exact ⟨made ++ more, hmade.append hmore, (broken?_append hbroken more).trans hbroken'⟩

/-- The reads of a request break off exactly if its failure is handed on. -/
theorem takeRequest_broken (capacity : Nat) (s : Stream) :
    ∃ made, Reads s made (takeRequest capacity s).2 ∧
      broken? made = handedOn? (takeRequest capacity s).1 := by
  obtain ⟨made, hmade, hbroken⟩ := rescanHead_broken capacity [] s
  rw [takeRequest_eq_takeRescanning, takeRescanning]
  split
  · exact ⟨[], .nil s, rfl⟩
  split
  · next e s' hhead =>
    rw [hhead] at hmade hbroken
    refine ⟨made, hmade, hbroken.trans ?_⟩
    cases e <;> rfl
  · next n held s' hhead =>
    rw [hhead] at hmade hbroken
    split
    · exact ⟨made, hmade, hbroken⟩
    · exact ⟨made, hmade, hbroken⟩
    · next k hk =>
      obtain ⟨more, hmore, hbroken'⟩ :=
        fill_broken (min (n + terminator.length + k) capacity) held s'
      exact ⟨made ++ more, hmade.append hmore, (broken?_append hbroken more).trans hbroken'⟩

/-- An outcome fits the bytes that arrive. If something is taken, then a head is among them within
the capacity; there is no buffer only beyond the bound, the connection is closed only if nothing
arrives, and bytes are malformed only if some arrive. -/
def OutcomeFits {α : Type} (capacity : Nat) (whole : Bytes) : Except IntakeError α → Prop
  | .ok _ => headEnd? (whole.take capacity) ≠ none
  | .error .noBuffer => bufferBound < capacity
  | .error .closed => whole = []
  | .error (.malformed _) => 0 < capacity → whole ≠ []
  | .error (.io _) => True

theorem rescanHead_fits {capacity : Nat} {held whole : Bytes} {s : Stream}
    (hw : whole = held ++ arriving s.deliveries) (hc : held.length ≤ capacity) :
    OutcomeFits capacity whole (rescanHead capacity held s).1 := by
  have hp : held <+: whole.take capacity := List.prefix_take_iff.mpr ⟨⟨_, hw.symm⟩, hc⟩
  fun_induction rescanHead capacity held s with
  | case1 held s h hf =>
    show headEnd? (whole.take capacity) ≠ none
    rw [firstTerminator?_eq_headEnd?] at hf
    simp [headEnd?_mono hp hf]
  | case2 held s hf hle =>
    rintro hpos rfl
    have hlen := hp.length_le
    rw [List.take_nil, List.length_nil] at hlen
    omega
  | case3 held s hf hle e s' he => trivial
  | case4 held s hf hle s' he =>
    rw [arriving_of_receive_nil (by omega) he, List.append_nil] at hw
    cases held with
    | nil => exact hw
    | cons b held => exact fun _ => by simp [hw]
  | case5 held s hf hle b bs s' he ih =>
    obtain ⟨hlen, hrest⟩ := arriving_of_receive_cons (by omega) he
    have hw' : whole = held ++ b :: bs ++ arriving s'.deliveries := by
      rw [hw, hrest, List.append_assoc]
    have hc' : (held ++ b :: bs).length ≤ capacity := by
      rw [List.length_append]
      omega
    exact ih hw' hc' (List.prefix_take_iff.mpr ⟨⟨_, hw'.symm⟩, hc'⟩)

/-- Filling fails by a failure that is handed on, or not at all. -/
theorem exists_io_of_fill {goal : Nat} {held : Bytes} {s s' : Stream} {e : IntakeError}
    (h : fill goal held s = (.error e, s')) : ∃ f, e = .io f := by
  fun_induction fill goal held s with
  | case2 held s hle f t he =>
    obtain ⟨rfl, -⟩ : .io f = e ∧ t = s' := by simpa using h
    exact ⟨f, rfl⟩
  | case4 held s hle b bs t he ih => exact ih h
  | _ => simp at h

theorem takeRequest_fits (capacity : Nat) (ds : List Delivery) (asked : List Nat) :
    OutcomeFits capacity (arriving ds) (takeRequest capacity ⟨ds, asked⟩).1 := by
  have hhead : OutcomeFits capacity (arriving ds) (rescanHead capacity [] ⟨ds, asked⟩).1 :=
    rescanHead_fits rfl (Nat.zero_le _)
  rw [takeRequest_eq_takeRescanning, takeRescanning]
  split
  · next hlt => exact hlt
  rcases hrescan : rescanHead capacity [] ⟨ds, asked⟩ with ⟨e | ⟨n, held⟩, s'⟩ <;>
    rw [hrescan] at hhead
  · cases e <;> exact hhead
  · have hne : arriving ds ≠ [] := fun hnil => hhead (by rw [hnil, List.take_nil, headEnd?_nil])
    rcases hdec : declaredLength (held.take n) with e | _ | k <;> simp only [hdec]
    · exact fun _ => hne
    · exact hhead
    · rcases hf : fill (min (n + terminator.length + k) capacity) held s' with ⟨e | raw, t⟩
      · obtain ⟨f, rfl⟩ := exists_io_of_fill hf
        trivial
      · exact hhead

/-- Until the head is found nothing is lost of what arrives. -/
theorem rescanHead_arriving {capacity n : Nat} {held held' : Bytes} {s s' : Stream}
    (h : rescanHead capacity held s = (.ok (n, held'), s')) :
    held ++ arriving s.deliveries = held' ++ arriving s'.deliveries := by
  fun_induction rescanHead capacity held s with
  | case1 held s n' hf =>
    obtain ⟨⟨rfl, rfl⟩, rfl⟩ : (n' = n ∧ held = held') ∧ s = s' := by simpa using h
    rfl
  | case5 held s hf hle b bs t he ih =>
    rw [(arriving_of_receive_cons (by omega) he).2, ← List.append_assoc]
    exact ih h
  | _ => simp at h

theorem prefix_of_fill {goal : Nat} {held raw : Bytes} {s s' : Stream}
    (h : fill goal held s = (.ok raw, s')) : raw <+: held ++ arriving s.deliveries := by
  fun_induction fill goal held s with
  | case1 held s hle =>
    obtain ⟨rfl, -⟩ : held = raw ∧ s = s' := by simpa using h
    exact List.prefix_append _ _
  | case2 held s hle e t he => simp at h
  | case3 held s hle t he =>
    obtain ⟨rfl, -⟩ : held = raw ∧ t = s' := by simpa using h
    exact List.prefix_append _ _
  | case4 held s hle b bs t he ih =>
    rw [(arriving_of_receive_cons (by omega) he).2, ← List.append_assoc]
    exact ih h

/-- What is taken is a beginning of what arrives. -/
theorem prefix_of_takeRequest {capacity : Nat} {ds : List Delivery} {asked : List Nat} {raw : Bytes}
    {s : Stream} (h : takeRequest capacity ⟨ds, asked⟩ = (.ok raw, s)) : raw <+: arriving ds := by
  rw [takeRequest_eq_takeRescanning, takeRescanning] at h
  split at h
  · simp at h
  split at h
  · simp at h
  · next n held t hhead =>
    have hsame : arriving ds = held ++ arriving t.deliveries := rescanHead_arriving hhead
    split at h
    · simp at h
    · obtain ⟨rfl, -⟩ : held = raw ∧ t = s := by simpa using h
      exact ⟨_, hsame.symm⟩
    · rw [hsame]
      exact prefix_of_fill h

end Http.Stream
end WebHost
