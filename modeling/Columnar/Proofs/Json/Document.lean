import Columnar.Proofs.Json.Text

/-!
# Documents that are read as they were written

The reader of documents gives back what the writer wrote, in both layouts, if all strings of the
document have a text and all its numbers are integers (`Json.IsExact`). There the reader and the
writer go through a document in the same order, so one induction on the steps of the reader does it
(`Parser.Reads`): each step takes a character at least, and the bound on the steps is the length of
what was written.

Main statement: `Json.parse?_render`.
-/

namespace Columnar.Json

mutual

/-- All strings of a document have a text, and all its numbers are integers. -/
def IsExact : Json → Prop
  | null | bool _ => True
  | number numeral => ∃ n : Int, numeral = toString n
  | string text => text.isSome = true
  | array items => AreExactItems items
  | object members => AreExactMembers members

/-- The items of an array are exact. -/
def AreExactItems : List Json → Prop
  | [] => True
  | j :: items => j.IsExact ∧ AreExactItems items

/-- The members of an object are exact, and so are their names. -/
def AreExactMembers : List (Option String × Json) → Prop
  | [] => True
  | (name, j) :: members => name.isSome = true ∧ j.IsExact ∧ AreExactMembers members

end

/-! ### What is written -/

mutual

/-- A document is written with one character at least, so that the parser, which takes a step for
each of them, has enough steps. -/
private theorem length_lt_write (l : Layout) :
    (d : Nat) → (j : Json) → (rest : List Char) → j.IsExact →
    rest.length < (write l d j rest).length
  | _, null, rest, _ => by
    rw [write, List.length_append]
    exact Nat.lt_add_of_pos_left (by decide)
  | _, bool b, rest, _ => by
    rw [write, List.length_append]
    exact Nat.lt_add_of_pos_left (by cases b <;> decide)
  | _, number _, rest, ⟨n, hn⟩ => by
    obtain ⟨c, cs, hnumeral, -⟩ := Parser.toString_eq_cons n
    rw [write, hn, hnumeral, List.length_append, List.length_cons]
    omega
  | _, string text, rest, _ => by
    rw [write, List.length_append]
    exact Nat.lt_add_of_pos_left (Nat.succ_pos _)
  | _, array [], rest, _ => by
    rw [write, List.length_cons, List.length_cons]
    omega
  | d, array (j :: items), rest, ⟨hj, hitems⟩ => by
    have hfirst := length_lt_write l (d + 1) j
      (writeItems l (d + 1) items (l.line d ++ ']' :: rest)) hj
    have hothers := length_le_writeItems l (d + 1) items (l.line d ++ ']' :: rest) hitems
    simp only [write, List.length_cons, List.length_append] at *
    omega
  | _, object [], rest, _ => by
    rw [write, List.length_cons, List.length_cons]
    omega
  | d, object ((name, j) :: members), rest, ⟨_, hj, hmembers⟩ => by
    have hfirst := length_lt_write l (d + 1) j
      (writeMembers l (d + 1) members (l.line d ++ '}' :: rest)) hj
    have hothers := length_le_writeMembers l (d + 1) members (l.line d ++ '}' :: rest) hmembers
    simp only [write, List.length_cons, List.length_append] at *
    omega

/-- The items of an array are written before what follows the array. -/
private theorem length_le_writeItems (l : Layout) :
    (d : Nat) → (items : List Json) → (rest : List Char) →
    AreExactItems items → rest.length ≤ (writeItems l d items rest).length
  | _, [], rest, _ => Nat.le_refl _
  | d, j :: items, rest, ⟨hj, hitems⟩ => by
    have hfirst := length_lt_write l d j (writeItems l d items rest) hj
    have hothers := length_le_writeItems l d items rest hitems
    simp only [writeItems, List.length_cons, List.length_append]
    omega

private theorem length_le_writeMembers (l : Layout) :
    (d : Nat) → (members : List (Option String × Json)) →
    (rest : List Char) → AreExactMembers members →
    rest.length ≤ (writeMembers l d members rest).length
  | _, [], rest, _ => Nat.le_refl _
  | d, (name, j) :: members, rest, ⟨_, hj, hmembers⟩ => by
    have hfirst := length_lt_write l d j (writeMembers l d members rest) hj
    have hothers := length_le_writeMembers l d members rest hmembers
    simp only [writeMembers, List.length_cons, List.length_append]
    omega

end

namespace Parser

/-- The end of a line and the indentation after it are blanks. -/
@[simp]
theorem skipBlanks_line (l : Layout) (d : Nat) (rest : List Char) :
    skipBlanks (l.line d ++ rest) = skipBlanks rest := by
  cases l with
  | compact => rfl
  | pretty =>
    have hblank : ∀ c ∈ '\n' :: List.replicate (2 * d) ' ', isBlank c = true := by
      simp [List.mem_replicate, isBlank]
    exact List.dropWhile_append_of_pos hblank

/-- What stands after the name of a member is a colon, and blanks. -/
private theorem colon_append (l : Layout) (rest : List Char) :
    ∃ s, l.colon ++ rest = ':' :: s ∧ skipBlanks s = skipBlanks rest := by
  cases l with
  | compact => exact ⟨rest, rfl, rfl⟩
  | pretty => exact ⟨' ' :: rest, rfl, rfl⟩

private theorem ne_of_isDigit {c d : Char} (hc : c.isDigit = true) (hd : d.isDigit = false) :
    c ≠ d := by
  rintro rfl
  rw [hc] at hd
  cases hd

/-- A value that was written begins with no blank, and with no end of a container. -/
private theorem write_eq_cons (l : Layout) (d : Nat) {j : Json} (hj : j.IsExact)
    (rest : List Char) :
    ∃ c s, write l d j rest = c :: s ∧ isBlank c = false ∧ c ≠ ']' ∧ c ≠ '}' := by
  cases j with
  | null => exact ⟨_, _, rfl, by decide⟩
  | bool b => cases b <;> exact ⟨_, _, rfl, by decide⟩
  | number numeral =>
    obtain ⟨n, rfl⟩ := hj
    obtain ⟨c, cs, hnumeral, hc⟩ := toString_eq_cons n
    refine ⟨c, cs ++ rest, by rw [write, hnumeral, List.cons_append], ?_⟩
    obtain hc | rfl := hc
    · have hne (d : Char) (hd : d.isDigit = false) : c ≠ d := ne_of_isDigit hc hd
      exact ⟨by simp [isBlank, hne], hne _ rfl, hne _ rfl⟩
    · decide
  | string text => exact ⟨_, _, rfl, by decide⟩
  | array items => cases items <;> exact ⟨_, _, rfl, by decide⟩
  | object members => rcases members with - | ⟨⟨name, j⟩, members⟩ <;> exact ⟨_, _, rfl, by decide⟩

/-- The text of a document does not begin with a blank. -/
private theorem skipBlanks_write (l : Layout) (d : Nat) {j : Json} (hj : j.IsExact)
    (rest : List Char) :
    skipBlanks (write l d j rest) = write l d j rest := by
  obtain ⟨c, s, h, hblank, -⟩ := write_eq_cons l d hj rest
  rw [h, skipBlanks, List.dropWhile_cons_of_neg (by simp [hblank])]

/-- Between a bracket and the document after it there are only blanks. -/
private theorem skipBlanks_line_write (l : Layout) (d : Nat) {j : Json} (hj : j.IsExact)
    (rest : List Char) : skipBlanks (l.line d ++ write l d j rest) = write l d j rest :=
  (skipBlanks_line l d _).trans (skipBlanks_write l d hj rest)

private theorem skipBlanks_quote (l : Layout) (name : String) (rest : List Char) :
    skipBlanks (quote name ++ l.colon ++ rest) = quote name ++ l.colon ++ rest := by
  rw [List.append_assoc, quote_append]
  rfl

private theorem skipBlanks_line_quote (l : Layout) (d : Nat) (name : String) (rest : List Char) :
    skipBlanks (l.line d ++ quote name ++ l.colon ++ rest) = quote name ++ l.colon ++ rest := by
  rw [List.append_assoc, List.append_assoc, skipBlanks_line, ← List.append_assoc, skipBlanks_quote]

/-! ### What ends a numeral -/

/-- A character that cannot stand in a numeral ends one. -/
private theorem endsNumeral_cons {c : Char} (hc : c.isDigit = false ∧ c ≠ '.' ∧ c ≠ 'e' ∧ c ≠ 'E')
    (rest : List Char) : EndsNumeral (c :: rest) := by
  rintro _ ⟨⟩
  exact hc

private theorem endsNumeral_line (l : Layout) (d : Nat) {rest : List Char} (h : EndsNumeral rest) :
    EndsNumeral (l.line d ++ rest) := by
  cases l with
  | compact => exact h
  | pretty => exact endsNumeral_cons (by decide) _

/-- A number in an array is followed by a comma, or by what ends the array. -/
private theorem endsNumeral_writeItems (l : Layout) (d : Nat) (items : List Json) {rest : List Char}
    (h : EndsNumeral rest) : EndsNumeral (writeItems l d items rest) := by
  cases items with
  | nil => exact h
  | cons j items => exact endsNumeral_cons (by decide) _

/-- A number in an object is followed by a comma, or by what ends the object. -/
private theorem endsNumeral_writeMembers (l : Layout) (d : Nat)
    (members : List (Option String × Json))
    {rest : List Char} (h : EndsNumeral rest) : EndsNumeral (writeMembers l d members rest) := by
  cases members with
  | nil => exact h
  | cons m members => exact endsNumeral_cons (by decide) _

/-! ### The reader -/

/-- With a number of steps the reader reads every value, and the items and members of every
container, that takes no more characters. Blanks before them make no difference. -/
structure Reads (l : Layout) (steps : Nat) : Prop where
  /-- A value, in front of what does not go on with a numeral. -/
  value {d : Nat} {j : Json} {s rest : List Char} (hj : j.IsExact)
    (hs : skipBlanks s = write l d j rest) (hrest : EndsNumeral rest)
    (hsteps : (write l d j rest).length ≤ steps + rest.length) :
    value steps s = some (j, rest)
  /-- The items of an array up to its end. -/
  items {d : Nat} {j : Json} {js done : List Json} {s tail rest : List Char} (hj : j.IsExact)
    (hjs : AreExactItems js) (hs : skipBlanks s = write l d j (writeItems l d js tail))
    (htail : EndsNumeral tail) (hend : skipBlanks tail = ']' :: rest)
    (hsteps : (write l d j (writeItems l d js tail)).length < steps + tail.length) :
    items steps done s = some (.array (done.reverseAux (j :: js)), rest)
  /-- The members of an object up to its end. -/
  members {d : Nat} {name : String} {j : Json} {ms done : List (Option String × Json)}
    {s tail rest : List Char} (hj : j.IsExact) (hms : AreExactMembers ms)
    (hs : skipBlanks s = quote name ++ l.colon ++ write l d j (writeMembers l d ms tail))
    (htail : EndsNumeral tail) (hend : skipBlanks tail = '\x7d' :: rest)
    (hsteps : (write l d j (writeMembers l d ms tail)).length < steps + tail.length) :
    members steps done s = some (.object (done.reverseAux ((some name, j) :: ms)), rest)

namespace Reads

variable {l : Layout} {steps : Nat}

/-- Items read back with one step more than each of them: one is read, and then a comma leads to the
others or a bracket to the end. -/
private theorem items_succ (h : Reads l steps) {d : Nat} {j : Json} {js done : List Json}
    {s tail rest : List Char} (hj : j.IsExact) (hjs : AreExactItems js)
    (hs : skipBlanks s = write l d j (writeItems l d js tail)) (htail : EndsNumeral tail)
    (hend : skipBlanks tail = ']' :: rest)
    (hsteps : (write l d j (writeItems l d js tail)).length < steps + 1 + tail.length) :
    Parser.items (steps + 1) done s = some (.array (done.reverseAux (j :: js)), rest) := by
  have hlt := length_lt_write l d j (writeItems l d js tail) hj
  have hle := length_le_writeItems l d js tail hjs
  have hvalue := h.value hj hs (endsNumeral_writeItems l d js htail) (by omega)
  rw [Parser.items, hvalue]
  cases js with
  | nil =>
    simp only [writeItems, hend]
    rfl
  | cons j' js =>
    obtain ⟨hj', hjs⟩ := hjs
    have hnext : (writeItems l d (j' :: js) tail).length =
        (l.line d).length + (write l d j' (writeItems l d js tail)).length + 1 := by
      rw [writeItems, List.length_cons, List.length_append]
    rw [writeItems]
    exact h.items hj' hjs (skipBlanks_line_write l d hj' _) htail hend (by omega)

/-- Members read back with one step more than each of them; the name and the colon come before the
document. -/
private theorem members_succ (h : Reads l steps) {d : Nat} {name : String} {j : Json}
    {ms done : List (Option String × Json)} {s tail rest : List Char} (hj : j.IsExact)
    (hms : AreExactMembers ms)
    (hs : skipBlanks s = quote name ++ l.colon ++ write l d j (writeMembers l d ms tail))
    (htail : EndsNumeral tail) (hend : skipBlanks tail = '\x7d' :: rest)
    (hsteps : (write l d j (writeMembers l d ms tail)).length < steps + 1 + tail.length) :
    Parser.members (steps + 1) done s =
      some (.object (done.reverseAux ((some name, j) :: ms)), rest) := by
  have hlt := length_lt_write l d j (writeMembers l d ms tail) hj
  have hle := length_le_writeMembers l d ms tail hms
  obtain ⟨t, hcolon, ht⟩ := colon_append l (write l d j (writeMembers l d ms tail))
  have hname : skipBlanks s = '"' :: (name.toList.flatMap escape ++ '"' :: ':' :: t) := by
    rw [hs, List.append_assoc, hcolon, quote_append]
  have hvalue := h.value hj (ht.trans (skipBlanks_write l d hj _))
    (endsNumeral_writeMembers l d ms htail) (by omega)
  have hskip : skipBlanks (':' :: t) = ':' :: t := rfl
  rw [Parser.members, hname]
  simp only [string?_flatMap_escape, hskip, hvalue]
  cases ms with
  | nil =>
    simp only [writeMembers, hend]
    rfl
  | cons m ms =>
    obtain ⟨name', j'⟩ := m
    obtain ⟨hname', hj', hms⟩ := hms
    obtain ⟨name', rfl⟩ := Option.isSome_iff_exists.1 hname'
    have hnext : (writeMembers l d ((some name', j') :: ms) tail).length =
        (l.line d).length + (quote name').length + l.colon.length +
          (write l d j' (writeMembers l d ms tail)).length + 1 := by
      simp only [writeMembers, Option.getD_some, List.length_cons, List.length_append]
    rw [writeMembers]
    exact h.members hj' hms (skipBlanks_line_quote l d name' _) htail hend (by omega)

/-- The first character of a numeral is that of no other value. -/
private theorem value_numeral (steps : Nat) (n : Int) {s rest : List Char}
    (hs : skipBlanks s = (toString n).toList ++ rest) (hrest : EndsNumeral rest) :
    Parser.value (steps + 1) s = some (number (toString n), rest) := by
  obtain ⟨c, cs, htext, hc⟩ := toString_eq_cons n
  have hne {e : Char} (he : e.isDigit = false ∧ e ≠ '-') : c ≠ e := by
    rintro rfl
    simp [he] at hc
  have hnumeral := numeral?_toString n hrest
  rw [htext, List.cons_append] at hnumeral
  rw [Parser.value, hs, htext, List.cons_append]
  split
  case h_7 =>
    rw [hnumeral, Option.map_some]
    exact congrArg (fun text => some (number text, rest)) (by rw [← htext, String.ofList_toList])
  all_goals
    next heq => exact absurd (List.cons.inj heq).1 (hne (by decide))

/-- An array that is not empty reads back with one step more than its items. -/
private theorem value_array (h : Reads l steps) {d : Nat} {j : Json} {items : List Json}
    {s rest : List Char} (hj : (array (j :: items)).IsExact)
    (hs : skipBlanks s = write l d (array (j :: items)) rest)
    (hsteps : (write l d (array (j :: items)) rest).length ≤ steps + 1 + rest.length) :
    Parser.value (steps + 1) s = some (array (j :: items), rest) := by
  obtain ⟨hj, hitems⟩ := hj
  have htail : EndsNumeral (l.line d ++ ']' :: rest) :=
    endsNumeral_line l d (endsNumeral_cons (by decide) rest)
  rw [write] at hs
  rw [Parser.value, hs]
  simp only [skipBlanks_line_write l (d + 1) hj]
  split
  · next hclosed =>
    obtain ⟨c, t, hwritten, -, hc, -⟩ := write_eq_cons l (d + 1) hj
      (writeItems l (d + 1) items (l.line d ++ ']' :: rest))
    exact absurd (List.cons.inj (hwritten.symm.trans hclosed)).1 hc
  · refine h.items hj hitems (skipBlanks_write l (d + 1) hj _) htail (skipBlanks_line l d _) ?_
    simp only [write, List.length_cons, List.length_append] at hsteps ⊢
    omega

/-- An object that is not empty reads back with one step more than its members. -/
private theorem value_object (h : Reads l steps) {d : Nat} {name : String} {j : Json}
    {members : List (Option String × Json)} {s rest : List Char}
    (hj : (object ((some name, j) :: members)).IsExact)
    (hs : skipBlanks s = write l d (object ((some name, j) :: members)) rest)
    (hsteps : (write l d (object ((some name, j) :: members)) rest).length ≤
      steps + 1 + rest.length) :
    Parser.value (steps + 1) s = some (object ((some name, j) :: members), rest) := by
  obtain ⟨-, hj, hmembers⟩ := hj
  have htail : EndsNumeral (l.line d ++ '\x7d' :: rest) :=
    endsNumeral_line l d (endsNumeral_cons (by decide) rest)
  rw [write, Option.getD_some] at hs
  rw [Parser.value, hs]
  simp only [skipBlanks_line_quote]
  split
  · next hclosed =>
    rw [List.append_assoc, quote_append] at hclosed
    cases hclosed
  · refine h.members hj hmembers (skipBlanks_quote l name _) htail (skipBlanks_line l d _) ?_
    simp only [write, List.length_cons, List.length_append] at hsteps ⊢
    omega

/-- A document reads back with one step more than its parts. -/
private theorem value_succ (h : Reads l steps) {d : Nat} {j : Json} {s rest : List Char}
    (hj : j.IsExact) (hs : skipBlanks s = write l d j rest) (hrest : EndsNumeral rest)
    (hsteps : (write l d j rest).length ≤ steps + 1 + rest.length) :
    Parser.value (steps + 1) s = some (j, rest) := by
  cases j with
  | null =>
    rw [Parser.value, hs]
    rfl
  | bool b =>
    rw [Parser.value, hs]
    cases b <;> rfl
  | number numeral =>
    obtain ⟨n, rfl⟩ := hj
    exact value_numeral steps n hs hrest
  | string text =>
    obtain ⟨text, rfl⟩ := Option.isSome_iff_exists.1 hj
    rw [Parser.value, hs, write, Option.getD_some, quote_append]
    simp only [string?_flatMap_escape]
    rfl
  | array items =>
    cases items with
    | nil =>
      rw [Parser.value, hs]
      rfl
    | cons j items => exact h.value_array hj hs hsteps
  | object members =>
    rcases members with - | ⟨⟨name, j⟩, members⟩
    · rw [Parser.value, hs]
      rfl
    · obtain ⟨name, rfl⟩ := Option.isSome_iff_exists.1 hj.1
      exact h.value_object hj hs hsteps

end Reads

/-- Documents read back, in either layout and with as many steps as they have characters. -/
theorem reads (l : Layout) (steps : Nat) : Reads l steps := by
  induction steps with
  | zero =>
    constructor
    · intro d j s rest hj hs hrest hsteps
      have hlt := length_lt_write l d j rest hj
      omega
    · intro d j js done s tail rest hj hjs hs htail hend hsteps
      have hlt := length_lt_write l d j (writeItems l d js tail) hj
      have hle := length_le_writeItems l d js tail hjs
      omega
    · intro d name j ms done s tail rest hj hms hs htail hend hsteps
      have hlt := length_lt_write l d j (writeMembers l d ms tail) hj
      have hle := length_le_writeMembers l d ms tail hms
      omega
  | succ steps ih => exact ⟨ih.value_succ, ih.items_succ, ih.members_succ⟩

end Parser

/-- **Documents.** A document whose strings have texts and whose numbers are integers is read as it
was written, in both layouts. -/
theorem parse?_render (l : Layout) {j : Json} (hj : j.IsExact) : parse? (j.render l) = some j := by
  have hvalue : Parser.value ((write l 0 j []).length + 1) (write l 0 j []) = some (j, []) :=
    (Parser.reads l _).value hj (Parser.skipBlanks_write l 0 hj []) nofun (Nat.le_succ _)
  rw [parse?, render, String.toList_ofList]
  simp only [hvalue]
  rfl

end Columnar.Json
