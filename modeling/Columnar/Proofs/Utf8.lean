import Columnar.Text

/-!
# Text reads back from its bytes

`decode_encode`: the bytes of a text decode to that text, and `encode_of_decode`: no others do. The
decoder is followed character by character: from whatever place it has reached, the one to four
bytes of a character take it to the place after them with that character read (`go_encodeChar`). The
bounds on lead and second bytes are where the proof uses that a character is neither a surrogate nor
beyond the last one.
-/

namespace Columnar.Utf8

private theorem isContinuation_of {b : UInt8} (lower : 0x80 ≤ b.toNat) (upper : b.toNat ≤ 0xBF) :
    isContinuation b = true := by
  simp only [isContinuation, UInt8.le_iff_toNat_le, Bool.and_eq_true, decide_eq_true_eq]
  exact ⟨lower, upper⟩

/-- The bytes that continue a character have six bits of its number each. -/
private theorem toNat_continuation (n : Nat) : (UInt8.ofNat (n % 64 + 128)).toNat = n % 64 + 128 :=
  UInt8.toNat_ofNat_of_lt' (show _ < 256 by omega)

/-- The lower six bits of a number make a byte that continues a character. -/
private theorem isContinuation_continuation (n : Nat) :
    isContinuation (UInt8.ofNat (n % 64 + 128)) = true := by
  have hnat := toNat_continuation n
  exact isContinuation_of (by omega) (by omega)

/-- The second bytes that may follow a lead byte, as numbers. -/
private theorem isSecond_of {lead second : UInt8} (lower : 0x80 ≤ second.toNat)
    (upper : second.toNat ≤ 0xBF) (e0 : lead.toNat = 0xE0 → 0xA0 ≤ second.toNat)
    (ed : lead.toNat = 0xED → second.toNat ≤ 0x9F) (f0 : lead.toNat = 0xF0 → 0x90 ≤ second.toNat)
    (f4 : lead.toNat = 0xF4 → second.toNat ≤ 0x8F) : isSecond lead second = true := by
  have number (n : UInt8) : (lead == n) = true ↔ lead.toNat = n.toNat := by
    rw [beq_iff_eq, UInt8.toNat_inj]
  have between (a b : UInt8) (hl : a.toNat ≤ second.toNat) (hu : second.toNat ≤ b.toNat) :
      (decide (a ≤ second) && decide (second ≤ b)) = true := by
    simp only [UInt8.le_iff_toNat_le, Bool.and_eq_true, decide_eq_true_eq]
    exact ⟨hl, hu⟩
  unfold isSecond
  split
  · next h => exact between _ _ (e0 ((number _).1 h)) upper
  split
  · next h => exact between _ _ lower (ed ((number _).1 h))
  split
  · next h => exact between _ _ (f0 ((number _).1 h)) upper
  split
  · next h => exact between _ _ lower (f4 ((number _).1 h))
  · exact isContinuation_of lower upper

/-- The numbers of characters: the surrogates are left out. -/
private theorem toNat_bounds (c : Char) :
    c.val.toNat < 0xD800 ∨ 0xDFFF < c.val.toNat ∧ c.val.toNat < 0x110000 :=
  c.valid

private theorem lt_of_toNat {a b : UInt8} (h : a.toNat < b.toNat) : a < b :=
  UInt8.lt_iff_toNat_lt.2 h

private theorem not_lt_of_toNat {a b : UInt8} (h : b.toNat ≤ a.toNat) : ¬a < b := fun hlt =>
  absurd (UInt8.lt_iff_toNat_lt.1 hlt) (Nat.not_lt.2 h)

/-! ### One character -/

/-- A character of one byte is decoded, and so below for two, three and four bytes. -/
private theorem go_one {a : UInt8} (ha : a.toNat < 0x80) (pos : Nat) (done : List Char)
    (rest : Bytes) :
    decodeChars.go pos done (a :: rest) =
      decodeChars.go (pos + 1) (assemble a.toNat [] :: done) rest := by
  rw [decodeChars.go.eq_def]
  exact if_pos (lt_of_toNat ha)

private theorem go_two {a b : UInt8} (ha : 0xC2 ≤ a.toNat) (ha' : a.toNat < 0xE0)
    (hb : isContinuation b = true) (pos : Nat) (done : List Char) (rest : Bytes) :
    decodeChars.go pos done (a :: b :: rest) =
      decodeChars.go (pos + 2) (assemble (a.toNat - 0xC0) [b] :: done) rest := by
  rw [decodeChars.go, if_neg (not_lt_of_toNat (show 0x80 ≤ _ by omega)),
    if_neg (not_lt_of_toNat (show 0xC2 ≤ _ by omega)), if_pos (lt_of_toNat ha'), if_pos hb]

private theorem go_three {a b c : UInt8} (ha : 0xE0 ≤ a.toNat) (ha' : a.toNat < 0xF0)
    (hb : isSecond a b = true) (hc : isContinuation c = true) (pos : Nat) (done : List Char)
    (rest : Bytes) :
    decodeChars.go pos done (a :: b :: c :: rest) =
      decodeChars.go (pos + 3) (assemble (a.toNat - 0xE0) [b, c] :: done) rest := by
  rw [decodeChars.go, if_neg (not_lt_of_toNat (show 0x80 ≤ _ by omega)),
    if_neg (not_lt_of_toNat (show 0xC2 ≤ _ by omega)),
    if_neg (not_lt_of_toNat (show 0xE0 ≤ _ by omega)), if_pos (lt_of_toNat ha')]
  dsimp only
  rw [hb, if_neg (by decide), if_pos hc]

private theorem go_four {a b c d : UInt8} (ha : 0xF0 ≤ a.toNat) (ha' : a.toNat < 0xF5)
    (hb : isSecond a b = true) (hc : isContinuation c = true) (hd : isContinuation d = true)
    (pos : Nat) (done : List Char) (rest : Bytes) :
    decodeChars.go pos done (a :: b :: c :: d :: rest) =
      decodeChars.go (pos + 4) (assemble (a.toNat - 0xF0) [b, c, d] :: done) rest := by
  rw [decodeChars.go, if_neg (not_lt_of_toNat (show 0x80 ≤ _ by omega)),
    if_neg (not_lt_of_toNat (show 0xC2 ≤ _ by omega)),
    if_neg (not_lt_of_toNat (show 0xE0 ≤ _ by omega)),
    if_neg (not_lt_of_toNat (show 0xF0 ≤ _ by omega)), if_pos (lt_of_toNat ha')]
  dsimp only
  rw [hb, if_neg (by decide), hc, if_neg (by decide), if_pos hd]

/-- The decoder reads the bytes of a character as that character, wherever it stands. -/
private theorem go_encodeChar (c : Char) (pos : Nat) (done : List Char) (rest : Bytes) :
    decodeChars.go pos done (String.utf8EncodeChar c ++ rest) =
      decodeChars.go (pos + (String.utf8EncodeChar c).length) (c :: done) rest := by
  have bounds := toNat_bounds c
  have hc : Char.ofNat c.val.toNat = c := Char.ofNat_toNat c
  generalize hn : c.val.toNat = n at bounds hc
  unfold String.utf8EncodeChar
  simp only [hn]
  -- The number of a character decides whether it has one, two, three or four bytes.
  split
  · next h =>
    have ha : (UInt8.ofNat n).toNat = n := UInt8.toNat_ofNat_of_lt' (show _ < 256 by omega)
    have value : assemble (UInt8.ofNat n).toNat [] = c := by rw [assemble, List.foldl_nil, ha, hc]
    rw [List.cons_append, List.nil_append, go_one (by omega), value]
    rfl
  split
  · next h h2 =>
    have ha : (UInt8.ofNat (n / 64 % 32 + 192)).toNat = n / 64 % 32 + 192 :=
      UInt8.toNat_ofNat_of_lt' (show _ < 256 by omega)
    have hb := toNat_continuation n
    have value : assemble ((UInt8.ofNat (n / 64 % 32 + 192)).toNat - 192)
        [UInt8.ofNat (n % 64 + 128)] = c := by
      rw [assemble, List.foldl_cons, List.foldl_nil, ha, hb,
        show 64 * (n / 64 % 32 + 192 - 192) + (n % 64 + 128 - 128) = n by omega, hc]
    rw [List.cons_append, List.cons_append, List.nil_append,
      go_two (by omega) (by omega) (isContinuation_continuation n), value]
    rfl
  split
  · next h h2 h3 =>
    have ha : (UInt8.ofNat (n / 4096 % 16 + 224)).toNat = n / 4096 % 16 + 224 :=
      UInt8.toNat_ofNat_of_lt' (show _ < 256 by omega)
    have hb := toNat_continuation (n / 64)
    have hd := toNat_continuation n
    have value : assemble ((UInt8.ofNat (n / 4096 % 16 + 224)).toNat - 224)
        [UInt8.ofNat (n / 64 % 64 + 128), UInt8.ofNat (n % 64 + 128)] = c := by
      rw [assemble, List.foldl_cons, List.foldl_cons, List.foldl_nil, ha, hb, hd,
        show 64 * (64 * (n / 4096 % 16 + 224 - 224) + (n / 64 % 64 + 128 - 128)) +
          (n % 64 + 128 - 128) = n by omega, hc]
    -- A lead byte of `0xED` with a second byte above `0x9F` would be a surrogate.
    have second : isSecond (UInt8.ofNat (n / 4096 % 16 + 224)) (UInt8.ofNat (n / 64 % 64 + 128)) =
        true :=
      isSecond_of (by omega) (by omega) (by omega) (by omega) (by omega) (by omega)
    rw [List.cons_append, List.cons_append, List.cons_append, List.nil_append,
      go_three (by omega) (by omega) second (isContinuation_continuation n), value]
    rfl
  · next h h2 h3 =>
    have ha : (UInt8.ofNat (n / 262144 % 8 + 240)).toNat = n / 262144 % 8 + 240 :=
      UInt8.toNat_ofNat_of_lt' (show _ < 256 by omega)
    have hb := toNat_continuation (n / 4096)
    have hd := toNat_continuation (n / 64)
    have he := toNat_continuation n
    have value : assemble ((UInt8.ofNat (n / 262144 % 8 + 240)).toNat - 240)
        [UInt8.ofNat (n / 4096 % 64 + 128), UInt8.ofNat (n / 64 % 64 + 128),
          UInt8.ofNat (n % 64 + 128)] = c := by
      rw [assemble, List.foldl_cons, List.foldl_cons, List.foldl_cons, List.foldl_nil, ha, hb, hd,
        he, show 64 * (64 * (64 * (n / 262144 % 8 + 240 - 240) + (n / 4096 % 64 + 128 - 128)) +
          (n / 64 % 64 + 128 - 128)) + (n % 64 + 128 - 128) = n by omega, hc]
    -- A lead byte of `0xF4` with a second byte above `0x8F` would be beyond the last character.
    have second : isSecond (UInt8.ofNat (n / 262144 % 8 + 240))
        (UInt8.ofNat (n / 4096 % 64 + 128)) = true :=
      isSecond_of (by omega) (by omega) (by omega) (by omega) (by omega) (by omega)
    rw [List.cons_append, List.cons_append, List.cons_append, List.cons_append, List.nil_append,
      go_four (by omega) (by omega) second (isContinuation_continuation (n / 64))
        (isContinuation_continuation n), value]
    rfl

/-! ### Whole texts -/

/-- Encoded characters are decoded one after the other. -/
private theorem go_encode (cs : List Char) (pos : Nat) (done : List Char) :
    decodeChars.go pos done (cs.flatMap String.utf8EncodeChar) = .ok (done.reverse ++ cs) := by
  induction cs generalizing pos done with
  | nil => simp [decodeChars.go]
  | cons c cs ih => rw [List.flatMap_cons, go_encodeChar, ih]; simp

/-- **Text reads back.** The bytes of a text decode to it. -/
@[simp] theorem decode_encode (s : String) : decode (encode s) = .ok s := by
  rw [decode, decodeChars, encode, go_encode, List.reverse_nil, List.nil_append]
  exact congrArg Except.ok (String.ofList_toList)

/-! ### Bytes that were read -/

private theorem toNat_of_between {a b x : UInt8}
    (h : (decide (a ≤ x) && decide (x ≤ b)) = true) : a.toNat ≤ x.toNat ∧ x.toNat ≤ b.toNat := by
  simpa only [UInt8.le_iff_toNat_le, Bool.and_eq_true, decide_eq_true_eq] using h

/-- A byte that continues a character is one of those from 80 to BF. -/
private theorem bounds_of_isContinuation {b : UInt8} (h : isContinuation b = true) :
    0x80 ≤ b.toNat ∧ b.toNat ≤ 0xBF :=
  toNat_of_between h

/-- The bounds of a second byte, as numbers. -/
private theorem bounds_of_isSecond {lead second : UInt8} (h : isSecond lead second = true) :
    0x80 ≤ second.toNat ∧ second.toNat ≤ 0xBF ∧ (lead.toNat = 0xE0 → 0xA0 ≤ second.toNat) ∧
      (lead.toNat = 0xED → second.toNat ≤ 0x9F) ∧ (lead.toNat = 0xF0 → 0x90 ≤ second.toNat) ∧
      (lead.toNat = 0xF4 → second.toNat ≤ 0x8F) := by
  have number (n : UInt8) : (lead == n) = true ↔ lead.toNat = n.toNat := by
    rw [beq_iff_eq, UInt8.toNat_inj]
  simp only [isSecond, isContinuation, number, UInt8.reduceToNat] at h
  repeat' split at h
  all_goals
    have hbounds := toNat_of_between h
    simp only [UInt8.reduceToNat] at hbounds
    omega

private theorem toNat_lt_of_lt {a b : UInt8} (h : a < b) : a.toNat < b.toNat :=
  UInt8.lt_iff_toNat_lt.1 h

private theorem toNat_le_of_not_lt {a b : UInt8} (h : ¬a < b) : b.toNat ≤ a.toNat :=
  Nat.not_lt.1 fun hlt => h (UInt8.lt_iff_toNat_lt.2 hlt)

private theorem ofNat_eq {a : UInt8} {n : Nat} (h : n = a.toNat) : UInt8.ofNat n = a := by
  rw [h, UInt8.ofNat_toNat]

private theorem toNat_val_ofNat {n : Nat} (h : n.isValidChar) : (Char.ofNat n).val.toNat = n := by
  rw [Char.ofNat, dif_pos h]
  rfl

/-- A byte that was decoded is encoded in the same way, and so below for two, three and four
bytes. -/
private theorem encodeChar_one {a : UInt8} (ha : a.toNat < 0x80) :
    String.utf8EncodeChar (assemble a.toNat []) = [a] := by
  have hval : (assemble a.toNat []).val.toNat = a.toNat :=
    toNat_val_ofNat (.inl (show a.toNat < _ by omega))
  unfold String.utf8EncodeChar
  simp only [hval]
  rw [if_pos (by omega), UInt8.ofNat_toNat]

private theorem encodeChar_two {a b : UInt8} (ha : 0xC2 ≤ a.toNat) (ha' : a.toNat < 0xE0)
    (hb : isContinuation b = true) :
    String.utf8EncodeChar (assemble (a.toNat - 0xC0) [b]) = [a, b] := by
  have hb := bounds_of_isContinuation hb
  have hval : (assemble (a.toNat - 0xC0) [b]).val.toNat =
      64 * (a.toNat - 0xC0) + (b.toNat - 0x80) := by
    refine toNat_val_ofNat (.inl ?_)
    simp only [List.foldl_cons, List.foldl_nil]
    omega
  unfold String.utf8EncodeChar
  simp only [hval]
  rw [if_neg (by omega), if_pos (by omega), ofNat_eq (a := a) (by omega),
    ofNat_eq (a := b) (by omega)]

private theorem encodeChar_three {a b c : UInt8} (ha : 0xE0 ≤ a.toNat) (ha' : a.toNat < 0xF0)
    (hb : isSecond a b = true) (hc : isContinuation c = true) :
    String.utf8EncodeChar (assemble (a.toNat - 0xE0) [b, c]) = [a, b, c] := by
  obtain ⟨hb, hb', he0, hed, -, -⟩ := bounds_of_isSecond hb
  have hc := bounds_of_isContinuation hc
  -- What is ruled out of second bytes are overlong forms and surrogates.
  have hval : (assemble (a.toNat - 0xE0) [b, c]).val.toNat =
      64 * (64 * (a.toNat - 0xE0) + (b.toNat - 0x80)) + (c.toNat - 0x80) := by
    refine toNat_val_ofNat ?_
    simp only [List.foldl_cons, List.foldl_nil, Nat.isValidChar]
    omega
  unfold String.utf8EncodeChar
  simp only [hval]
  rw [if_neg (by omega), if_neg (by omega), if_pos (by omega), ofNat_eq (a := a) (by omega),
    ofNat_eq (a := b) (by omega), ofNat_eq (a := c) (by omega)]

private theorem encodeChar_four {a b c d : UInt8} (ha : 0xF0 ≤ a.toNat) (ha' : a.toNat < 0xF5)
    (hb : isSecond a b = true) (hc : isContinuation c = true) (hd : isContinuation d = true) :
    String.utf8EncodeChar (assemble (a.toNat - 0xF0) [b, c, d]) = [a, b, c, d] := by
  obtain ⟨hb, hb', -, -, hf0, hf4⟩ := bounds_of_isSecond hb
  have hc := bounds_of_isContinuation hc
  have hd := bounds_of_isContinuation hd
  -- What is ruled out of second bytes are overlong forms and numbers beyond the last character.
  have hval : (assemble (a.toNat - 0xF0) [b, c, d]).val.toNat =
      64 * (64 * (64 * (a.toNat - 0xF0) + (b.toNat - 0x80)) + (c.toNat - 0x80)) +
        (d.toNat - 0x80) := by
    refine toNat_val_ofNat ?_
    simp only [List.foldl_cons, List.foldl_nil, Nat.isValidChar]
    omega
  unfold String.utf8EncodeChar
  simp only [hval]
  rw [if_neg (by omega), if_neg (by omega), if_neg (by omega), ofNat_eq (a := a) (by omega),
    ofNat_eq (a := b) (by omega), ofNat_eq (a := c) (by omega), ofNat_eq (a := d) (by omega)]

/-- The bytes of the characters so far, and those of the next one. -/
private theorem flatMap_reverse_cons {c : Char} {taken : Bytes}
    (h : String.utf8EncodeChar c = taken) (done : List Char) (rest : Bytes) :
    (c :: done).reverse.flatMap String.utf8EncodeChar ++ rest =
      done.reverse.flatMap String.utf8EncodeChar ++ (taken ++ rest) := by
  rw [List.reverse_cons, List.flatMap_append, List.flatMap_singleton, h, List.append_assoc]

/-- What was read has the bytes of the characters so far and those that were read. -/
private theorem flatMap_of_go {pos : Nat} {done cs : List Char} {bytes : Bytes}
    (h : decodeChars.go pos done bytes = .ok cs) :
    cs.flatMap String.utf8EncodeChar = done.reverse.flatMap String.utf8EncodeChar ++ bytes := by
  -- Only four cases go on: those of a whole character of one to four bytes.
  fun_induction decodeChars.go pos done bytes with
  | case1 pos done =>
    cases h
    rw [List.append_nil]
  | case2 pos done a rest ha ih =>
    exact (ih h).trans (flatMap_reverse_cons (encodeChar_one (toNat_lt_of_lt ha)) done rest)
  | case5 pos done a _ ha ha' b rest hb ih =>
    have htaken := encodeChar_two (toNat_le_of_not_lt ha) (toNat_lt_of_lt ha') hb
    exact (ih h).trans (flatMap_reverse_cons htaken done rest)
  | case10 pos done a _ _ ha ha' b c rest hb hc ih =>
    have htaken := encodeChar_three (toNat_le_of_not_lt ha) (toNat_lt_of_lt ha')
      (by simpa using hb) hc
    exact (ih h).trans (flatMap_reverse_cons htaken done rest)
  | case17 pos done a _ _ _ ha ha' b c d rest hb hc hd ih =>
    have htaken := encodeChar_four (toNat_le_of_not_lt ha) (toNat_lt_of_lt ha')
      (by simpa using hb) (by simpa using hc) hd
    exact (ih h).trans (flatMap_reverse_cons htaken done rest)
  | _ => cases h

/-- **Text has one form.** Bytes that decode to a text are the bytes of the text. -/
theorem encode_of_decode {bytes : Bytes} {s : String} (h : decode bytes = .ok s) :
    encode s = bytes := by
  rw [decode] at h
  cases hcs : decodeChars bytes with
  | error fault =>
    rw [hcs] at h
    cases h
  | ok cs =>
    rw [hcs] at h
    cases h
    rw [encode, String.toList_ofList]
    exact flatMap_of_go hcs

/-! ### Where text begins -/

private theorem isContinuation_of_toNat {b : UInt8} (h : b.toNat < 0x80 ∨ 0xBF < b.toNat) :
    isContinuation b = false := by
  have hlt : ¬((0x80 : UInt8).toNat ≤ b.toNat ∧ b.toNat ≤ (0xBF : UInt8).toNat) := by
    simp only [UInt8.reduceToNat]
    omega
  simpa only [isContinuation, UInt8.le_iff_toNat_le, Bool.and_eq_false_iff, decide_eq_false_iff_not,
    Decidable.not_and_iff_or_not] using hlt

/-- A character does not begin with a byte that continues one. -/
private theorem isContinuation_encodeChar {c : Char} {b : UInt8} {rest : Bytes}
    (h : (String.utf8EncodeChar c ++ rest)[0]? = some b) : isContinuation b = false := by
  have bounds := toNat_bounds c
  generalize hn : c.val.toNat = n at bounds
  unfold String.utf8EncodeChar at h
  simp only [hn] at h
  refine isContinuation_of_toNat ?_
  split at h
  · obtain rfl : UInt8.ofNat n = b := Option.some.inj h
    rw [UInt8.toNat_ofNat_of_lt' (show _ < 256 by omega)]
    omega
  split at h
  · obtain rfl : UInt8.ofNat (n / 64 % 32 + 192) = b := Option.some.inj h
    rw [UInt8.toNat_ofNat_of_lt' (show _ < 256 by omega)]
    omega
  split at h
  · obtain rfl : UInt8.ofNat (n / 4096 % 16 + 224) = b := Option.some.inj h
    rw [UInt8.toNat_ofNat_of_lt' (show _ < 256 by omega)]
    omega
  · obtain rfl : UInt8.ofNat (n / 262144 % 8 + 240) = b := Option.some.inj h
    rw [UInt8.toNat_ofNat_of_lt' (show _ < 256 by omega)]
    omega

/-- The bytes of a text do not begin inside a character. -/
theorem isContinuation_of_encode {s : String} {b : UInt8} (h : (encode s)[0]? = some b) :
    isContinuation b = false := by
  rw [encode] at h
  cases hs : s.toList with
  | nil => simp [hs] at h
  | cons c cs =>
    rw [hs, List.flatMap_cons] at h
    exact isContinuation_encodeChar h

/-- The bytes of some texts one after the other are those of one text. -/
theorem flatMap_encode (texts : List String) :
    texts.flatMap encode = encode (String.ofList (texts.flatMap String.toList)) := by
  rw [encode, String.toList_ofList, List.flatMap_assoc]
  rfl

end Columnar.Utf8
