import Columnar.Proofs.Block.Step

/-!
# Calls of a reader

Where memory is not limited, the answers of a reader are the items of what it has before it, one
after the other, until it is closed or there are no more (`Reader.answer_eq`).

Blocks after a bad one are not looked at: with them, a reader gives the same answers and leaves the
same host, down to the counts of the compressor and the log of opened blocks, as if they were not
there (`Reader.answer_extend`).
-/

namespace Columnar.Block

/-- A call of a reader. -/
inductive ReaderCall where
  /-- Asks for the next batch. -/
  | next
  /-- Closes the reader. -/
  | close

/-- The answers to calls of `next`, where the items of a list are handed out up to the first call of
`close`. -/
def answersOf : List (Except Error Batch) → List ReaderCall → List Item
  | _, [] => []
  | items, .next :: calls => items.head? :: answersOf items.tail calls
  | _, .close :: calls => answersOf [] calls

namespace Reader

/-- Makes calls of a reader, one after the other; returns the answers to those of `next`. -/
def answer (r : Reader) : List ReaderCall → Host → List Item × Host
  | [], h => ([], h)
  | .next :: calls, h =>
    let (item, r, h) := r.next h
    let (items, h) := r.answer calls h
    (item :: items, h)
  | .close :: calls, h =>
    let (r, h) := r.close h
    r.answer calls h

variable {r : Reader} {p : Position} {h : Host} {x : Reading}

private theorem upcoming_of_closed (hr : r.position = none) : r.upcoming = ⟨[], none⟩ := by
  rw [upcoming, hr]

/-- Where memory is not limited, a step hands out the first item, and has the others before it. -/
private theorem Steps.items {out : Item × Reader × Host} (hs : Steps none r x out) :
    out.1 = x.items.head? ∧ out.2.1.upcoming.items = x.items.tail := by
  obtain ⟨b, hb, rfl⟩ | ⟨hclosed, ⟨hbatches, hend⟩ | ⟨hothers, -⟩⟩ := hs.item
  · exact ⟨hb, rfl⟩
  · obtain ⟨batches, ending⟩ := x
    obtain rfl : batches = [] := hbatches
    rw [upcoming_of_closed hclosed, hend]
    cases ending <;> exact ⟨rfl, rfl⟩
  · exact absurd rfl hothers

/-- **Answers.** A reader hands out what it has before it, and then nothing more. -/
theorem answer_eq (hr : r.Stands none h) (calls : List ReaderCall) :
    (r.answer calls h).1 = answersOf r.upcoming.items calls := by
  induction calls generalizing r h with
  | nil => rfl
  | cons call calls ih =>
    cases call with
    | next =>
      have hsteps := next_steps hr
      obtain ⟨hitem, hitems⟩ := hsteps.items
      have hlater := ih hsteps.stands
      rw [hitems] at hlater
      rw [answersOf, ← hitem, ← hlater]
      rfl
    | close =>
      obtain ⟨hclosed, hr⟩ := close_stands hr
      have hlater := ih hr
      rw [upcoming_of_closed hclosed] at hlater
      exact hlater

end Reader

/-! ### Blocks that are not looked at -/

/-- The same position in a buffer with more blocks. -/
def Position.extend (later : List Bytes) (p : Position) : Position :=
  { p with buffer := { p.buffer with blocks := p.buffer.blocks ++ later }, rest := p.rest ++ later }

namespace Reader

variable {r : Reader} {p : Position} {h : Host} {later : List Bytes}

/-- The same reader of a buffer with more blocks. -/
def extend (later : List Bytes) (r : Reader) : Reader :=
  { r with position := r.position.map (Position.extend later) }

/-- What a step comes to, of a buffer with more blocks. -/
def extendOut (later : List Bytes) (out : Item × Reader × Host) : Item × Reader × Host :=
  (out.1, out.2.1.extend later, out.2.2)

/-- A step within a block is the same, if that is what the steps to the next block are. -/
private theorem nextAt_extend {s : Stream.Reader} (hb : Beside none p.reserved h)
    (hending : ((streamReading r.expected (p.visited - 1) s).append
      (r.codec.reading r.expected p.visited p.rest)).ending ≠ none)
    (hnext : ∀ {q : Position} {h : Host}, q.visited = p.visited → Beside none q.reserved h →
      (r.codec.reading r.expected p.visited p.rest).ending ≠ none →
        (r.extend later).nextBlock (q.extend later) (p.rest ++ later) h =
          extendOut later (r.nextBlock q p.rest h)) :
    (r.extend later).nextAt (p.extend later) s h = extendOut later (r.nextAt p s h) := by
  rw [streamReading_nextInBlock] at hending
  have hsame : (r.extend later).nextInBlock (p.extend later) s = r.nextInBlock p s := rfl
  rw [nextAt, nextAt, hsame]
  rcases hstep : r.nextInBlock p s with d | _ | ⟨b, t⟩
  · rfl
  · rw [hstep] at hending
    exact hnext (q := (r.finishBlock p h).1) rfl (beside_finishBlock hb) hending
  · rfl

/-- A step to the next block is the same, if there is a flaw before the other blocks. -/
private theorem nextBlock_extend {blocks : List Bytes} (hb : Beside none p.reserved h)
    (hending : (r.codec.reading r.expected p.visited blocks).ending ≠ none) :
    (r.extend later).nextBlock (p.extend later) (blocks ++ later) h =
      extendOut later (r.nextBlock p blocks h) := by
  induction blocks generalizing p h with
  | nil => exact absurd rfl hending
  | cons block rest ih =>
    obtain ⟨k, hk, ⟨hrun, -⟩ | ⟨hothers, -⟩⟩ :=
      openBlock_comesTo (c := r.codec) (l := ⟨p.reserved, h⟩) p.visited block hb
    · rw [Codec.reading] at hending
      cases ho : r.codec.opens p.visited block with
      | error o =>
        rw [ho] at hrun
        have hopen : (openBlock r.codec p.visited block).run ⟨p.reserved, h⟩ = (.error o, k) := hrun
        have hextended : (openBlock (r.extend later).codec (p.extend later).visited block).run
          ⟨(p.extend later).reserved, h⟩ = (.error o, k) := hrun
        rw [List.cons_append]
        simp only [nextBlock, hopen, hextended]
        rfl
      | ok s =>
        rw [ho] at hrun hending
        have hextended : (openBlock (r.extend later).codec (p.extend later).visited block).run
          ⟨(p.extend later).reserved, h⟩ = (.ok s, k) := hrun
        rw [List.cons_append, nextBlock_of_ok _ hextended, nextBlock_of_ok _ hrun]
        refine nextAt_extend (p := ⟨p.buffer, p.visited + 1, rest, some s, k.reserved⟩)
          (hk.of_pool ?_) hending fun hvisited hb hrest => ?_
        · split <;> rfl
        · rw [← hvisited] at hrest
          exact ih hb hrest
    · exact absurd rfl hothers

/-- A step of a reader is the same, if there is a flaw before the other blocks. -/
theorem next_extend (hr : r.Stands none h)
    (hending : r.position = none ∨ r.upcoming.ending ≠ none) :
    (r.extend later).next h = extendOut later (r.next h) := by
  cases hp : r.position with
  | none =>
    have hextended : (r.extend later).position = none := by rw [extend, hp]; rfl
    rw [next_of_closed hp, next_of_closed hextended, extendOut]
  | some p =>
    have hb : Beside none p.reserved h := hr.beside
    have hextended : (r.extend later).position = some (p.extend later) := by rw [extend, hp]; rfl
    replace hending := hending.resolve_left (hp ▸ nofun)
    cases hcurrent : p.current with
    | none =>
      have hcurrent' : (p.extend later).current = none := hcurrent
      simp only [upcoming, hp, hcurrent] at hending
      rw [next_of_between hp hcurrent, next_of_between hextended hcurrent']
      exact nextBlock_extend hb hending
    | some s =>
      have hcurrent' : (p.extend later).current = some s := hcurrent
      simp only [upcoming, hp, hcurrent] at hending
      rw [next_of_within hp hcurrent, next_of_within hextended hcurrent']
      refine nextAt_extend hb hending fun hvisited hb hrest => ?_
      rw [← hvisited] at hrest
      exact nextBlock_extend hb hrest

theorem close_extend (r : Reader) (h : Host) :
    (r.extend later).close h = ((r.close h).1.extend later, (r.close h).2) := by
  obtain ⟨codec, expected, _ | p⟩ := r <;> rfl

/-- **Blocks after a flaw** are not looked at: the answers are the same without them, and so is the
host. -/
theorem answer_extend (hr : r.Stands none h)
    (hending : r.position = none ∨ r.upcoming.ending ≠ none) (calls : List ReaderCall) :
    (r.extend later).answer calls h = r.answer calls h := by
  induction calls generalizing r h with
  | nil => rfl
  | cons call calls ih =>
    cases call with
    | next =>
      have hsteps := next_steps hr
      have hlater : (r.next h).2.1.position = none ∨ (r.next h).2.1.upcoming.ending ≠ none := by
        obtain ⟨b, -, hx⟩ | ⟨hclosed, -⟩ := hsteps.item
        · refine .inr (hending.elim (fun hclosed => ?_) fun h => ?_)
          · rw [upcoming_of_closed hclosed] at hx
            cases hx
          · rwa [hx] at h
        · exact .inl hclosed
      rw [answer, answer, next_extend hr hending]
      simp only [extendOut, ih hsteps.stands hlater]
    | close =>
      obtain ⟨hclosed, hstands⟩ := close_stands hr
      rw [answer, answer, close_extend]
      exact ih hstands (.inl hclosed)

end Reader

end Columnar.Block
