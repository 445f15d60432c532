import Columnar.Packed.Tree
import Columnar.Proofs.Packed.Reading

/-!
# Expression trees read back from the packed form

The packed form of expression trees is a prefix code without loss: `ExpressionTree.unpack_pack` says
that a tree is read back from its packed form whatever follows, and that from every strict prefix of
it nothing is read but an unexpected end.

The proof follows the types. Each reader has one lemma (`reads_reader`) that it `Reads` what is
packed; for trees it is an induction over the tree, with one case for each kind of node and the list
of operands read by induction. The depth to which a reader of trees may go is a bound that never
shows: as long as there are no more bytes than levels, more levels make no difference
(`reader_eq_of_length_le`).

Lengths are written as 64-bit numbers. `IsSized` trees are those whose texts, byte strings and lists
have such lengths, which is all that a machine with 64-bit addresses can hold.
-/

namespace Columnar

open Packed

/-! ### Sizes -/

/-- The bytes of a text can be counted by a 64-bit number. -/
def Field.IsSized (f : Field) : Prop :=
  (Utf8.encode f.name).length < maxLength

/-- The bytes of a text or of a byte string can be counted by a 64-bit number. -/
def Literal.IsSized : Literal → Prop
  | utf8 v => (Utf8.encode v).length < maxLength
  | binary v => v.length < maxLength
  | _ => True

mutual

/-- All texts, byte strings and lists of a tree can be counted by 64-bit numbers. -/
def TreeNode.IsSized : TreeNode → Prop
  | .field _ f => f.IsSized
  | .literal value => value.IsSized
  | .function name children _ =>
    (Utf8.encode name).length < maxLength ∧ children.length < maxLength ∧ AllSized children
  | .and children | .or children => children.length < maxLength ∧ AllSized children

/-- All texts, byte strings and lists of some trees can be counted by 64-bit numbers. -/
def TreeNode.AllSized : List TreeNode → Prop
  | [] => True
  | node :: nodes => node.IsSized ∧ AllSized nodes

end

/-- All texts, byte strings and lists of a tree can be counted by 64-bit numbers. -/
def ExpressionTree.IsSized (t : ExpressionTree) : Prop :=
  t.root.IsSized ∧ t.result.IsSized

/-! ### Types, fields and constants -/

/-- The form of an alternative is its number and the form of its parts. -/
private theorem reads_alternative {α : Type} {f : Nat → Reader α} {n : Nat} {w : Bytes} {a : α}
    (hf : Reads (f n) w a) (h : n < 2 ^ 32 := by decide) :
    Reads (Reader.variant >>= f) (Packed.ofNat n ++ w) a :=
  (reads_nat .u32 h (Nat.lt_trans h (by decide))).bind hf

/-- The form of an alternative without parts is its number. -/
private theorem reads_constant {α : Type} {f : Nat → Reader α} {n : Nat} {a : α}
    (hf : f n = pure a) (h : n < 2 ^ 32 := by decide) :
    Reads (Reader.variant >>= f) (Packed.ofNat n) a := by
  rw [← List.append_nil (Packed.ofNat n)]
  exact reads_alternative (hf ▸ .pure a) h

namespace DataType

/-- A type reads back. -/
theorem reads_reader : (t : DataType) → Reads reader t.pack t
  | null | boolean | int8 | int16 | int32 | int64 | float32 | float64 | utf8 | binary | date32
  | timestampMicros => reads_constant rfl
  | decimal128 precision scale => by
    refine reads_alternative ?_
    refine (reads_byte precision).bind (w := [scale.toUInt8]) ?_
    simpa using (reads_byte scale.toUInt8).map fun b => decimal128 precision b.toInt8

theorem consuming_reader : Consuming reader := by
  refine (consuming_nat _).bind fun n => ?_
  split
  case h_9 => exact consuming_byte.bind fun _ => consuming_byte.bind fun _ => .pure _
  all_goals first | exact .pure _ | exact .throw _

end DataType

namespace Field

/-- A field reads back if its name can be written. -/
theorem reads_reader {f : Field} (h : f.IsSized) : Reads reader f.pack f := by
  rw [pack, List.append_assoc]
  exact (reads_string h).bind ((DataType.reads_reader f.type).bind ((reads_bool f.nullable).map _))

theorem consuming_reader : Consuming reader :=
  consuming_string.bind fun _ => DataType.consuming_reader.bind fun _ =>
    consuming_bool.bind fun _ => .pure _

end Field

namespace Literal

/-- Numbers are read as integers of any size; one that was written as 16 bits fits into 16 bits
again. -/
private theorem reads_int16 (v : Int16) :
    Reads (Reader.int .u16 >>= fun n => pure (int16 (Int16.ofInt n))) (Packed.ofInt v.toInt)
      (int16 v) := by
  have h := zigzag_lt (m := 2 ^ 15) v.le_toInt v.toInt_lt
  simpa using (reads_int .u16 h (by omega)).map fun n => int16 (Int16.ofInt n)

private theorem reads_int32 {f : Int32 → Literal} (v : Int32) :
    Reads (Reader.int .u32 >>= fun n => pure (f (Int32.ofInt n))) (Packed.ofInt v.toInt) (f v) := by
  have h := zigzag_lt (m := 2 ^ 31) v.le_toInt v.toInt_lt
  simpa using (reads_int .u32 h (by omega)).map fun n => f (Int32.ofInt n)

private theorem reads_int64 {f : Int64 → Literal} (v : Int64) :
    Reads (Reader.int .u64 >>= fun n => pure (f (Int64.ofInt n))) (Packed.ofInt v.toInt) (f v) := by
  have h := zigzag_lt (m := 2 ^ 63) v.le_toInt v.toInt_lt
  simpa using (reads_int .u64 h (by omega)).map fun n => f (Int64.ofInt n)

/-- A constant reads back if its text or its bytes can be written. -/
theorem reads_reader : (v : Literal) → v.IsSized → Reads reader v.pack v
  | null t, _ => reads_alternative ((DataType.reads_reader t).map null)
  | boolean v, _ => reads_alternative ((reads_bool v).map boolean)
  | int8 v, _ => by
    refine reads_alternative (w := [v.toUInt8]) ?_
    simpa using (reads_byte v.toUInt8).map fun b => int8 b.toInt8
  | int16 v, _ => reads_alternative (reads_int16 v)
  | int32 v, _ => reads_alternative (reads_int32 v)
  | int64 v, _ => reads_alternative (reads_int64 v)
  | float32 v, _ => by
    refine reads_alternative ?_
    simpa using (reads_word 4 v.toNat_lt).map fun n => float32 (UInt32.ofNat n)
  | float64 v, _ => by
    refine reads_alternative ?_
    simpa using (reads_word 8 v.toNat_lt).map fun n => float64 (UInt64.ofNat n)
  | decimal128 v precision scale, _ => by
    rw [pack, List.append_assoc]
    have h := zigzag_lt (m := 2 ^ 127) v.le_toInt v.toInt_lt
    refine reads_alternative ((reads_int .u128 h h).bind ?_)
    refine (reads_byte precision).bind (w := [scale.toUInt8]) ?_
    simpa using (reads_byte scale.toUInt8).map fun b =>
      decimal128 (BitVec.ofInt 128 v.toInt) precision b.toInt8
  | utf8 v, h => reads_alternative ((reads_string h).map utf8)
  | binary v, h => reads_alternative ((reads_bytes h).map binary)
  | date32 v, _ => reads_alternative (reads_int32 v)
  | timestampMicros v, _ => reads_alternative (reads_int64 v)

theorem consuming_reader : Consuming reader := by
  refine (consuming_nat _).bind fun n => ?_
  split
  case h_1 => exact DataType.consuming_reader.bind fun _ => .pure _
  case h_2 => exact consuming_bool.bind fun _ => .pure _
  case h_3 => exact consuming_byte.bind fun _ => .pure _
  case h_7 | h_8 => exact (consuming_word _).bind fun _ => .pure _
  case h_9 =>
    exact (consuming_int _).bind fun _ => consuming_byte.bind fun _ => consuming_byte.bind fun _ =>
      .pure _
  case h_10 => exact consuming_string.bind fun _ => .pure _
  case h_11 => exact consuming_bytes.bind fun _ => .pure _
  all_goals first | exact (consuming_int _).bind fun _ => .pure _ | exact .throw _

end Literal

/-! ### Trees -/

namespace TreeNode

/-- The operands of a node are written one after the other. -/
theorem packAll_eq (nodes : List TreeNode) : packAll nodes = nodes.flatMap pack := by
  induction nodes with
  | nil => rfl
  | cons node nodes ih => rw [packAll, List.flatMap_cons, ih]

/-- Operands can be written if each of them can. -/
theorem allSized_iff {nodes : List TreeNode} : AllSized nodes ↔ ∀ n ∈ nodes, n.IsSized := by
  induction nodes with
  | nil => simp [AllSized]
  | cons node nodes ih => rw [AllSized, ih, List.forall_mem_cons]

private theorem length_pack_pos (t : TreeNode) : 0 < t.pack.length := by
  cases t <;> simp only [pack, List.length_append, Nat.add_assoc] <;>
    exact Nat.add_pos_left (length_ofNat_pos _) _

private theorem length_pack_le {t : TreeNode} {nodes : List TreeNode} (h : t ∈ nodes) :
    t.pack.length ≤ (nodes.flatMap pack).length := by
  rw [List.flatMap_def]
  exact (List.sublist_flatten_of_mem (List.mem_map_of_mem h)).length_le

/-- The operands of a node read back if the nodes of their depth do. -/
private theorem reads_operands {depth : Nat} {children : List TreeNode}
    (ih : ∀ t : TreeNode, t.IsSized → t.pack.length ≤ depth → Reads (reader depth) t.pack t)
    (hl : children.length < maxLength) (hs : AllSized children)
    (hd : (packAll children).length ≤ depth) :
    Reads (Reader.list (reader depth)) (Packed.ofNat children.length ++ packAll children)
      children := by
  rw [packAll_eq] at hd ⊢
  exact reads_list hl fun t ht =>
    ih t (allSized_iff.1 hs t ht) (Nat.le_trans (length_pack_le ht) hd)

/-- **Trees read back**, with at least as many levels to go as the tree has bytes. -/
theorem reads_reader {depth : Nat} {t : TreeNode} (hs : t.IsSized) (hd : t.pack.length ≤ depth) :
    Reads (reader depth) t.pack t := by
  -- Operands are shorter than the node itself, so the depth that is left suffices for them.
  induction depth generalizing t with
  | zero => exact absurd hd (Nat.not_le.2 t.length_pack_pos)
  | succ depth ih =>
    cases t with
    | field index f =>
      rw [pack, List.append_assoc]
      refine reads_alternative ((reads_nat .size index.toNat_lt ?_).bind ?_)
      · exact Nat.lt_trans index.toNat_lt (by decide)
      · simpa using (Field.reads_reader hs).map fun f => field (UInt64.ofNat index.toNat) f
    | literal value => exact reads_alternative ((Literal.reads_reader value hs).map literal)
    | function name children type =>
      obtain ⟨hname, hl, hall⟩ := hs
      have hlen : (packAll children).length ≤ depth := by
        have := length_ofNat_pos 2
        simp only [pack, List.length_append] at hd
        omega
      rw [pack, List.append_assoc, List.append_assoc, List.append_assoc]
      refine reads_alternative ((reads_string hname).bind ?_)
      rw [← List.append_assoc]
      exact (reads_operands (fun t hs hd => ih hs hd) hl hall hlen).bind
        ((DataType.reads_reader type).map _)
    | and children | or children =>
      obtain ⟨hl, hall⟩ := hs
      have hlen : (packAll children).length ≤ depth := by
        have := length_ofNat_pos children.length
        simp only [pack, List.length_append] at hd
        omega
      rw [pack, List.append_assoc]
      exact reads_alternative ((reads_operands (fun t hs hd => ih hs hd) hl hall hlen).map _)

theorem consuming_reader (depth : Nat) : Consuming (reader depth) := by
  induction depth with
  | zero => exact .throw _
  | succ depth ih =>
    refine (consuming_nat _).bind fun n => ?_
    split
    · exact (consuming_nat _).bind fun _ => Field.consuming_reader.bind fun _ => .pure _
    · exact Literal.consuming_reader.bind fun _ => .pure _
    · exact consuming_string.bind fun _ => (consuming_list ih).bind fun _ =>
        DataType.consuming_reader.bind fun _ => .pure _
    · exact (consuming_list ih).bind fun _ => .pure _
    · exact (consuming_list ih).bind fun _ => .pure _
    · exact .throw _

/-- A level more than there are bytes makes no difference, since a node takes at least one byte. -/
private theorem reader_succ (depth : Nat) (b : Bytes) (h : b.length ≤ depth) :
    reader depth b = reader (depth + 1) b := by
  induction depth generalizing b with
  | zero =>
    rw [List.length_eq_zero_iff.1 (Nat.le_zero.1 h)]
    rfl
  | succ depth ih =>
    refine bind_congr rfl fun n rest hr => ?_
    -- The number of the alternative took a byte, so that operands are read from what `ih` speaks
    -- of.
    have hrest : rest.length ≤ depth :=
      Nat.le_of_lt_succ (Nat.lt_of_lt_of_le ((advancing_nat _).length_lt hr) h)
    have hlist := list_congr (consuming_reader depth) ih
    split
    · rfl
    · rfl
    · refine bind_congr rfl fun name rest' hr' => ?_
      refine bind_congr (hlist _ ?_) fun _ _ _ => rfl
      exact Nat.le_trans (consuming_string.length_le hr') hrest
    · exact bind_congr (hlist _ hrest) fun _ _ _ => rfl
    · exact bind_congr (hlist _ hrest) fun _ _ _ => rfl
    · rfl

/-- With as many levels to go as there are bytes, more levels make no difference. -/
theorem reader_eq_of_length_le {b : Bytes} {depth depth' : Nat} (h : b.length ≤ depth)
    (hle : depth ≤ depth') : reader depth b = reader depth' b := by
  obtain ⟨more, rfl⟩ := Nat.exists_eq_add_of_le hle
  clear hle
  induction more with
  | zero => rfl
  | succ more ih => rw [ih, Nat.add_succ, reader_succ _ b (Nat.le_trans h (Nat.le_add_right _ _))]

end TreeNode

/-! ### Whole trees -/

namespace ExpressionTree

/-- The reader of trees with so many levels to go. -/
private def reader (depth : Nat) : Reader ExpressionTree := do
  let root ← TreeNode.reader depth
  let result ← Field.reader
  return ⟨root, result⟩

/-- A tree reads back with as many levels as its form has bytes. -/
private theorem reads_reader {depth : Nat} {t : ExpressionTree} (hs : t.IsSized)
    (hd : t.root.pack.length ≤ depth) : Reads (reader depth) t.pack t :=
  (TreeNode.reads_reader hs.1 hd).bind ((Field.reads_reader hs.2).map _)

/-- Levels beyond the number of bytes make no difference. -/
private theorem unpack?_eq {b : Bytes} {depth : Nat} (h : b.length ≤ depth) :
    unpack? b = (reader depth b).map (·.1) := by
  change (reader b.length b).map _ = _
  rw [reader, bind_congr (TreeNode.reader_eq_of_length_le (Nat.le_refl _) h) fun _ _ _ => rfl]
  rfl

/-- **A prefix code without loss.** A tree is read back from its packed form, whatever follows that;
and every strict prefix of the packed form is refused because it ends too early. Lengths of texts,
byte strings and lists are those that 64-bit addresses allow. -/
theorem unpack_pack {t : ExpressionTree} (hs : t.IsSized) :
    (∀ rest, unpack (t.pack ++ rest) = .ok t) ∧
      ∀ p, p <+: t.pack → p ≠ t.pack → ∃ missing,
        unpack? p = .error (.unexpectedEnd missing) ∧
          unpack p = .error ⟨.deserialization, "Failed to decode expression tree: " ++
            (Defect.unexpectedEnd missing).text, none⟩ := by
  have hroot : t.root.pack.length ≤ t.pack.length := by simp [pack]
  constructor
  · intro rest
    have hlen : t.pack.length ≤ (t.pack ++ rest).length := by simp
    have hread := (reads_reader hs (Nat.le_trans hroot hlen)).whole rest
    rw [unpack, unpack?_eq (Nat.le_refl _), hread]
    rfl
  · intro p hp hne
    obtain ⟨missing, hread⟩ := (reads_reader hs hroot).cut p hp hne
    have hcut : unpack? p = .error (.unexpectedEnd missing) := by
      rw [unpack?_eq hp.length_le, hread]
      rfl
    exact ⟨missing, hcut, by rw [unpack, hcut]; rfl⟩

/-- A tree of a field, a text and a function of both. -/
theorem unpack_pack_concat :
    let name : Field := ⟨"é", .utf8, true⟩
    let t : ExpressionTree := ⟨.function "=" [.field 300 name, .literal (.utf8 "x")] .boolean,
      ⟨"r", .boolean, false⟩⟩
    t.IsSized ∧ (∀ rest, unpack (t.pack ++ rest) = .ok t) ∧
      ∀ p, p <+: t.pack → p ≠ t.pack → ∃ missing,
        unpack? p = .error (.unexpectedEnd missing) ∧
          unpack p = .error ⟨.deserialization, "Failed to decode expression tree: " ++
            (Defect.unexpectedEnd missing).text, none⟩ := by
  intro name t
  have hs : t.IsSized := by
    simp only [t, name, ExpressionTree.IsSized, TreeNode.IsSized, TreeNode.AllSized, Field.IsSized,
      Literal.IsSized]
    decide
  exact ⟨hs, unpack_pack hs⟩

end ExpressionTree

end Columnar
