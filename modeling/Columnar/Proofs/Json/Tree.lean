import Columnar.Json.Tree
import Columnar.Proofs.Json.Document

/-!
# The JSON form of expression trees, read back

A tree is written with all its constants, but a reader holds the root in memory before it knows what
it stands for, and a document in memory has no integers of 128 bits. So the form is lossless for
trees without decimal constants, and of no use for others: a single decimal constant, however small,
and the text of the tree is refused. Floating-point constants are left out here, as their numerals
need not be read as what they were written for.

For each kind of data there is one lemma on what is written (`isExact_toJson`), one on what can be
held in memory (`isPlain_toJson`) and one on what is read (`ofJson?_toJson`).

Main statement: `ExpressionTree.read_render`.
-/

namespace Columnar

/-! ### Numbers -/

namespace Json

variable {n : Int}

/-- A number of at most 64 bits has a plain numeral. -/
private theorem isPlain_ofInt (hleast : -2 ^ 63 ≤ n) (hgreatest : n < 2 ^ 64) :
    (ofInt n).isPlain = true := by
  obtain ⟨x, hx, -⟩ := Number.int?_ofNumeral? hleast hgreatest
  rw [ofInt, isPlain, hx]
  rfl

/-- A number of at most 64 bits reads back wherever it is within the bounds that are asked for. -/
private theorem intBetween?_ofInt (hleast : -2 ^ 63 ≤ n) (hgreatest : n < 2 ^ 64)
    {least greatest : Int}
    (h : least ≤ n ∧ n ≤ greatest) : (ofInt n).intBetween? least greatest = some n := by
  obtain ⟨x, hx, hint⟩ := Number.int?_ofNumeral? hleast hgreatest
  rw [intBetween?, ofInt, number?, hx]
  simp only [Option.bind_eq_bind, Option.bind_some, hint, if_pos h]

/-- Integers of at most 64 unsigned bits are read back. -/
private theorem unsigned?_ofInt (bits : Nat) {n : Nat} (hbits : bits ≤ 64) (hn : n < 2 ^ bits) :
    (ofInt n).isPlain = true ∧ (ofInt n).unsigned? bits = some n := by
  have hle : 2 ^ bits ≤ 2 ^ 64 := Nat.pow_le_pow_right (by omega) hbits
  have hn' : (n : Int) < 2 ^ bits := by exact_mod_cast hn
  refine ⟨isPlain_ofInt (by omega) (by omega), ?_⟩
  rw [unsigned?, intBetween?_ofInt (by omega) (by omega) ⟨by omega, by omega⟩]
  rfl

/-- Integers of at most 64 bits in two's complement are read back. -/
private theorem signed?_ofInt (bits : Nat) (hbits : bits ≤ 64) (hleast : -2 ^ (bits - 1) ≤ n)
    (hgreatest : n < 2 ^ (bits - 1)) :
    (ofInt n).isPlain = true ∧ (ofInt n).signed? bits = some n := by
  have hle : 2 ^ (bits - 1) ≤ 2 ^ 63 := Nat.pow_le_pow_right (by omega) (by omega)
  have hle : (2 : Int) ^ (bits - 1) ≤ 2 ^ 63 := by exact_mod_cast hle
  exact ⟨isPlain_ofInt (by omega) (by omega),
    intBetween?_ofInt (by omega) (by omega) ⟨hleast, by omega⟩⟩

/-- Names are plain texts, so only the members themselves matter. -/
private theorem isPlain_ofMembers (members : List (String × Json)) :
    (ofMembers members).isPlain = members.all (·.2.isPlain) := by
  rw [ofMembers, isPlain]
  induction members with
  | nil => rfl
  | cons m members ih =>
    rw [List.map_cons, arePlainMembers, ih, List.all_cons]
    rfl

end Json

/-! ### Types and fields -/

namespace DataType

/-- The document of a type is exact: the parser reads back what is written. -/
theorem isExact_toJson (type : DataType) : type.toJson.IsExact := by
  cases type with
  | decimal128 precision scale => exact ⟨rfl, ⟨rfl, ⟨_, rfl⟩, rfl, ⟨_, rfl⟩, trivial⟩, trivial⟩
  | _ => exact rfl

theorem isPlain_toJson (type : DataType) : type.toJson.isPlain = true := by
  cases type with
  | decimal128 precision scale =>
    obtain ⟨hprecision, -⟩ := Json.unsigned?_ofInt 8 (by omega) precision.toNat_lt
    obtain ⟨hscale, -⟩ := Json.signed?_ofInt 8 (by omega) scale.le_toInt scale.toInt_lt
    simp [toJson, Json.isPlain_ofMembers, hprecision, hscale]
  | _ => rfl

/-- A type reads back from its document, wherever it is held. -/
theorem ofJson?_toJson (held : Bool) (type : DataType) : ofJson? held type.toJson = some type := by
  cases type with
  | decimal128 precision scale =>
    obtain ⟨-, hprecision⟩ := Json.unsigned?_ofInt 8 (by omega) precision.toNat_lt
    obtain ⟨-, hscale⟩ := Json.signed?_ofInt 8 (by omega) scale.le_toInt scale.toInt_lt
    change (do
      return decimal128 (UInt8.ofNat (← (Json.ofInt precision.toNat).unsigned? 8))
        (Int8.ofInt (← (Json.ofInt scale.toInt).signed? 8))) = _
    rw [hprecision, hscale]
    simp
  | _ => rfl

end DataType

namespace Field

theorem isExact_toJson (f : Field) : f.toJson.IsExact :=
  ⟨rfl, rfl, rfl, f.type.isExact_toJson, rfl, trivial, trivial⟩

theorem isPlain_toJson (f : Field) : f.toJson.isPlain = true := by
  simp [toJson, Json.isPlain_ofMembers, Json.isPlain, Json.ofString, f.type.isPlain_toJson]

/-- A field reads back from its document, wherever it is held. -/
theorem ofJson?_toJson (held : Bool) (f : Field) : ofJson? held f.toJson = some f := by
  change (do return ⟨f.name, ← DataType.ofJson? held f.type.toJson, f.nullable⟩ : Option Field) = _
  rw [DataType.ofJson?_toJson]
  rfl

end Field

/-! ### Constants -/

namespace Literal

/-- Whether a constant is a floating-point number. -/
def isFloat : Literal → Bool
  | float32 _ | float64 _ => true
  | _ => false

/-- Whether a constant is a decimal. -/
def isDecimal : Literal → Bool
  | decimal128 _ _ _ => true
  | _ => false

private theorem areExactItems_map (value : Bytes) :
    Json.AreExactItems (value.map fun b => .ofInt b.toNat) := by
  induction value with
  | nil => trivial
  | cons b value ih => exact ⟨⟨_, rfl⟩, ih⟩

private theorem arePlainItems_map (value : Bytes) :
    Json.arePlainItems (value.map fun b => .ofInt b.toNat) = true := by
  induction value with
  | nil => rfl
  | cons b value ih =>
    obtain ⟨hplain, -⟩ := Json.unsigned?_ofInt 8 (by omega) b.toNat_lt
    rw [List.map_cons, Json.arePlainItems, hplain, ih]
    rfl

/-- A byte string is an array of numbers of eight bits, and reads back as such. -/
private theorem mapM_unsigned?_map (value : Bytes) :
    (value.map fun b => Json.ofInt b.toNat).mapM (·.unsigned? 8) =
      some (value.map UInt8.toNat) := by
  induction value with
  | nil => rfl
  | cons b value ih =>
    obtain ⟨-, hb⟩ := Json.unsigned?_ofInt 8 (by omega) b.toNat_lt
    rw [List.map_cons, List.mapM_cons, hb, ih]
    rfl

/-- Constants other than floating-point numbers have exact documents. -/
theorem isExact_toJson {v : Literal} (h : v.isFloat = false) : v.toJson.IsExact := by
  cases v with
  | float32 | float64 => cases h
  | null type => exact ⟨rfl, type.isExact_toJson, trivial⟩
  | boolean => exact ⟨rfl, trivial, trivial⟩
  | int8 | int16 | int32 | int64 | date32 | timestampMicros => exact ⟨rfl, ⟨_, rfl⟩, trivial⟩
  | decimal128 =>
    exact ⟨rfl, ⟨rfl, ⟨_, rfl⟩, rfl, ⟨_, rfl⟩, rfl, ⟨_, rfl⟩, trivial⟩, trivial⟩
  | utf8 => exact ⟨rfl, rfl, trivial⟩
  | binary value => exact ⟨rfl, areExactItems_map value, trivial⟩

private theorem isPlain_member (name : String) {j : Json} (hj : j.isPlain = true) :
    (Json.ofMembers [(name, j)]).isPlain = true := by
  simp [Json.isPlain_ofMembers, hj]

/-- A constant that is a signed number has a plain document and reads back. -/
private theorem signed_member {bits : Nat} {n : Int} (hbits : bits ≤ 64)
    (hleast : -2 ^ (bits - 1) ≤ n) (hgreatest : n < 2 ^ (bits - 1)) (name : String)
    {f : Int → Literal} {v : Literal} (hf : f n = v) :
    (Json.ofMembers [(name, .ofInt n)]).isPlain = true ∧
      ((Json.ofInt n).signed? bits).map f = some v := by
  obtain ⟨hplain, hn⟩ := Json.signed?_ofInt bits hbits hleast hgreatest
  exact ⟨isPlain_member name hplain, by rw [hn, Option.map_some, hf]⟩

/-- A constant that is neither a floating-point number nor a decimal is read back. -/
theorem ofJson?_toJson {v : Literal} (hfloat : v.isFloat = false) (hdecimal : v.isDecimal = false) :
    v.toJson.isPlain = true ∧ ofJson? v.toJson = some v := by
  cases v with
  | float32 | float64 => cases hfloat
  | decimal128 => cases hdecimal
  | boolean | utf8 => exact ⟨rfl, rfl⟩
  | null type =>
    exact ⟨isPlain_member _ type.isPlain_toJson, congrArg (·.map null) (type.ofJson?_toJson true)⟩
  | int8 n =>
    exact signed_member (by omega) n.le_toInt n.toInt_lt _ (congrArg int8 n.ofInt_toInt)
  | int16 n =>
    exact signed_member (by omega) n.le_toInt n.toInt_lt _ (congrArg int16 n.ofInt_toInt)
  | int32 n =>
    exact signed_member (by omega) n.le_toInt n.toInt_lt _ (congrArg int32 n.ofInt_toInt)
  | date32 n =>
    exact signed_member (by omega) n.le_toInt n.toInt_lt _ (congrArg date32 n.ofInt_toInt)
  | int64 n =>
    exact signed_member (by omega) n.le_toInt n.toInt_lt _ (congrArg int64 n.ofInt_toInt)
  | timestampMicros n =>
    exact signed_member (by omega) n.le_toInt n.toInt_lt _ (congrArg timestampMicros n.ofInt_toInt)
  | binary value =>
    refine ⟨isPlain_member _ (arePlainItems_map value), ?_⟩
    change ((value.map fun b : UInt8 => Json.ofInt b.toNat).mapM (Json.unsigned? 8)).bind
      (fun ns => some (binary (ns.map UInt8.ofNat))) = _
    rw [mapM_unsigned?_map, Option.bind_some, List.map_map]
    have hvalue := List.map_id'' (fun b : UInt8 => UInt8.ofNat_toNat (x := b)) value
    exact congrArg (fun bytes => some (binary bytes)) hvalue

/-- A constant that is not a floating-point number is read back if it is not a decimal, and only
then. -/
private theorem ofJson?_toJson_eq {v : Literal} (h : v.isFloat = false) :
    ofJson? v.toJson = if v.isDecimal then none else some v := by
  cases hdecimal : v.isDecimal with
  | false => exact (ofJson?_toJson h hdecimal).2
  | true =>
    cases v with
    | decimal128 => rfl
    | _ => cases hdecimal

end Literal

/-! ### Nodes -/

namespace TreeNode

mutual

/-- The constants of a tree. -/
def literals : TreeNode → List Literal
  | field _ _ => []
  | literal value => [value]
  | function _ children _ | and children | or children => literalsAll children

/-- The constants of a list of trees. -/
def literalsAll : List TreeNode → List Literal
  | [] => []
  | node :: nodes => node.literals ++ literalsAll nodes

end

mutual

/-- The document of a tree is exact if none of its constants is a floating-point number. -/
theorem isExact_toJson : (node : TreeNode) → (∀ v ∈ node.literals, v.isFloat = false) →
    node.toJson.IsExact
  | field _ f, _ => ⟨rfl, rfl, rfl, ⟨_, rfl⟩, rfl, f.isExact_toJson, trivial⟩
  | literal value, h => ⟨rfl, rfl, rfl, value.isExact_toJson (h value (.head _)), trivial⟩
  | function _ children type, h =>
    ⟨rfl, rfl, rfl, rfl, rfl, areExact_toJsonAll children h, rfl, type.isExact_toJson, trivial⟩
  | and children, h | or children, h =>
    ⟨rfl, rfl, rfl, areExact_toJsonAll children h, trivial⟩

theorem areExact_toJsonAll : (nodes : List TreeNode) →
    (∀ v ∈ literalsAll nodes, v.isFloat = false) → Json.AreExactItems (toJsonAll nodes)
  | [], _ => trivial
  | node :: nodes, h => by
    obtain ⟨hnode, hnodes⟩ := List.forall_mem_append.1 h
    exact ⟨isExact_toJson node hnode, areExact_toJsonAll nodes hnodes⟩

end

variable (isRoot : Bool) (d : Nat)

/-- A reference is read member by member; its field is held in a tagged document, as all that is
below a tree. -/
private theorem ofJson?_field (index : UInt64) (f : Field) :
    ofJson? isRoot (d + 1) (field index f).toJson = do
      return field (UInt64.ofNat (← (Json.ofInt index.toNat).unsigned? 64))
        (← Field.ofJson? true f.toJson) :=
  rfl

private theorem ofJson?_literal (value : Literal) :
    ofJson? isRoot (d + 1) (literal value).toJson = do
      return literal (← Literal.ofJson? value.toJson) :=
  rfl

/-- A function is read with its operands, which are one level further down. -/
private theorem ofJson?_function (name : String) (children : List TreeNode) (type : DataType) :
    ofJson? isRoot (d + 1) (function name children type).toJson = do
      return function name (← (toJsonAll children).mapM (ofJson? false d))
        (← DataType.ofJson? true type.toJson) :=
  rfl

private theorem ofJson?_and (children : List TreeNode) :
    ofJson? isRoot (d + 1) (and children).toJson = do
      return and (← (toJsonAll children).mapM (ofJson? false d)) :=
  rfl

private theorem ofJson?_or (children : List TreeNode) :
    ofJson? isRoot (d + 1) (or children).toJson = do
      return or (← (toJsonAll children).mapM (ofJson? false d)) :=
  rfl

private theorem depth_pos (node : TreeNode) : 0 < node.toJson.depth := by
  cases node <;> exact Nat.succ_pos _

/-- The operands of a node are at least one level below it. -/
private theorem depth_children_le {node : TreeNode} {d : Nat} (h : node.toJson.depth ≤ d + 1) :
    Json.depthItems (toJsonAll node.children) ≤ d := by
  cases node <;>
    simp only [toJson, Json.ofMembers, List.map_cons, Json.depth, Json.depthMembers] at h <;>
    simp only [children, toJsonAll, Json.depthItems] <;> omega

mutual

/-- A tree without floating-point numbers is read back if it has no decimals, and only then. -/
theorem ofJson?_toJson (isRoot : Bool) : (d : Nat) → (node : TreeNode) → node.toJson.depth ≤ d →
    (∀ v ∈ node.literals, v.isFloat = false) →
    ofJson? isRoot d node.toJson = if node.literals.any Literal.isDecimal then none else some node
  | 0, node, hd, _ => absurd (depth_pos node) (by omega)
  | d + 1, field index f, _, _ => by
    obtain ⟨-, hindex⟩ := Json.unsigned?_ofInt 64 (Nat.le_refl 64) index.toNat_lt
    rw [ofJson?_field, hindex, f.ofJson?_toJson]
    simp [literals]
  | d + 1, literal value, _, hfloat => by
    rw [ofJson?_literal, Literal.ofJson?_toJson_eq (hfloat value (.head _)), literals]
    cases h : value.isDecimal <;> simp [h]
  | d + 1, function name children type, hd, hfloat => by
    rw [ofJson?_function, mapM_toJsonAll d children (depth_children_le hd) hfloat,
      type.ofJson?_toJson, literals]
    cases (literalsAll children).any Literal.isDecimal <;> rfl
  | d + 1, and children, hd, hfloat => by
    rw [ofJson?_and, mapM_toJsonAll d children (depth_children_le hd) hfloat, literals]
    cases (literalsAll children).any Literal.isDecimal <;> rfl
  | d + 1, or children, hd, hfloat => by
    rw [ofJson?_or, mapM_toJsonAll d children (depth_children_le hd) hfloat, literals]
    cases (literalsAll children).any Literal.isDecimal <;> rfl

/-- Operands read back one by one, unless there is a decimal below one of them. -/
theorem mapM_toJsonAll : (d : Nat) → (nodes : List TreeNode) →
    Json.depthItems (toJsonAll nodes) ≤ d → (∀ v ∈ literalsAll nodes, v.isFloat = false) →
    (toJsonAll nodes).mapM (ofJson? false d) =
      if (literalsAll nodes).any Literal.isDecimal then none else some nodes
  | _, [], _, _ => rfl
  | d, node :: nodes, hd, hfloat => by
    obtain ⟨hnode, hnodes⟩ := List.forall_mem_append.1 hfloat
    obtain ⟨hfirst, hothers⟩ := Nat.max_le.1 hd
    rw [toJsonAll, List.mapM_cons, ofJson?_toJson false d node hfirst hnode,
      mapM_toJsonAll d nodes hothers hnodes, literalsAll, List.any_append]
    cases node.literals.any Literal.isDecimal <;>
      cases (literalsAll nodes).any Literal.isDecimal <;> rfl

end

mutual

/-- A tree whose constants are neither floating-point numbers nor decimals can be held in memory. -/
theorem isPlain_toJson : (node : TreeNode) →
    (∀ v ∈ node.literals, v.isFloat = false ∧ v.isDecimal = false) → node.toJson.isPlain = true
  | field index f, _ => by
    obtain ⟨hindex, -⟩ := Json.unsigned?_ofInt 64 (Nat.le_refl 64) index.toNat_lt
    simp [toJson, Json.isPlain_ofMembers, Json.ofString, Json.isPlain, hindex, f.isPlain_toJson]
  | literal value, h => by
    obtain ⟨hfloat, hdecimal⟩ := h value (.head _)
    obtain ⟨hvalue, -⟩ := Literal.ofJson?_toJson hfloat hdecimal
    simp [toJson, Json.isPlain_ofMembers, Json.ofString, Json.isPlain, hvalue]
  | function name children type, h => by
    have hchildren := arePlain_toJsonAll children h
    simp [toJson, Json.isPlain_ofMembers, Json.ofString, Json.isPlain, hchildren,
      type.isPlain_toJson]
  | and children, h | or children, h => by
    have hchildren := arePlain_toJsonAll children h
    simp [toJson, Json.isPlain_ofMembers, Json.ofString, Json.isPlain, hchildren]

theorem arePlain_toJsonAll : (nodes : List TreeNode) →
    (∀ v ∈ literalsAll nodes, v.isFloat = false ∧ v.isDecimal = false) →
    Json.arePlainItems (toJsonAll nodes) = true
  | [], _ => rfl
  | node :: nodes, h => by
    obtain ⟨hnode, hnodes⟩ := List.forall_mem_append.1 h
    rw [toJsonAll, Json.arePlainItems, isPlain_toJson node hnode, arePlain_toJsonAll nodes hnodes]
    rfl

end

end TreeNode

/-! ### Trees -/

namespace ExpressionTree

/-- **Trees are read back.** What was written of a tree without floating-point constants, in either
layout and within the limit of nesting, reads as the tree if it has no decimal constants, and as
nothing if it has one. -/
theorem read_render (l : Json.Layout) (t : ExpressionTree) (hdepth : t.toJson.depth ≤ maxDepth)
    (hfloat : ∀ v ∈ t.root.literals, v.isFloat = false) :
    (Json.parse? (t.toJson.render l)).bind ofJson? =
      if t.root.literals.any Literal.isDecimal then none else some t := by
  have hexact : t.toJson.IsExact :=
    ⟨rfl, t.root.isExact_toJson hfloat, rfl, t.result.isExact_toJson, trivial⟩
  have hroot := t.root.ofJson?_toJson true _ (Nat.le_refl _) hfloat
  have hresult := t.result.ofJson?_toJson false
  have hread : ofJson? t.toJson =
      if t.root.toJson.isPlain && t.root.toJson.depth + 1 ≤ maxDepth then
        (TreeNode.ofJson? true t.root.toJson.depth t.root.toJson).bind fun root =>
          (Field.ofJson? false t.result.toJson).bind fun result => some ⟨root, result⟩
      else none :=
    rfl
  rw [Json.parse?_render l hexact, Option.bind_some, hread, hroot, hresult]
  cases hdecimal : t.root.literals.any Literal.isDecimal with
  | true => split <;> rfl
  | false =>
    have hdecimal : ∀ v ∈ t.root.literals, v.isDecimal = false := by simpa using hdecimal
    have hplain : t.root.toJson.isPlain = true :=
      t.root.isPlain_toJson fun v hv => ⟨hfloat v hv, hdecimal v hv⟩
    have hroot : t.root.toJson.depth + 1 ≤ maxDepth :=
      Nat.le_trans (Nat.succ_le_succ (Nat.le_max_left ..)) hdepth
    simp [hplain, hroot]

/-- The least integer of 64 bits, the greatest position, and a text with a quotation mark, a control
character and a letter of two bytes, below three kinds of nodes. -/
theorem read_render_nested :
    let children : List TreeNode :=
      [.function "equal"
          [.literal (.int64 (-9223372036854775808)), .literal (.null .int64)] .boolean,
        .or [.literal (.utf8 "\"\x01é"), .field 18446744073709551615 ⟨"", .binary, false⟩]]
    let t := ofRoot (.and children) "c"
    (Json.parse? (t.toJson.render .pretty)).bind ofJson? = some t := by
  intro children t
  exact read_render .pretty t (by decide) (by decide)

/-- A decimal constant is written, and what was written does not read back: a document in memory has
no integers of 128 bits, however small they are. -/
theorem read_render_decimal :
    let t := ofRoot (.literal (.decimal128 1 10 2)) "c"
    t.toJson.depth ≤ maxDepth ∧ (∀ v ∈ t.root.literals, v.isFloat = false) ∧
      (Json.parse? t.toJson.pretty).bind ofJson? = none ∧
      (Json.parse? t.toJson.compact).bind ofJson? = none := by
  intro t
  have hfloat : ∀ v ∈ t.root.literals, v.isFloat = false := by decide
  have hexact : t.toJson.IsExact :=
    ⟨rfl, t.root.isExact_toJson hfloat, rfl, t.result.isExact_toJson, trivial⟩
  have hread : ofJson? t.toJson = none := rfl
  have hparse (l : Json.Layout) : (Json.parse? (t.toJson.render l)).bind ofJson? = none := by
    rw [Json.parse?_render l hexact]
    exact hread
  exact ⟨by decide, hfloat, hparse .pretty, hparse .compact⟩

end ExpressionTree

end Columnar
