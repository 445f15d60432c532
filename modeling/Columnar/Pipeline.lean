import Columnar.Broadcast
import Columnar.Dataset
import Columnar.Eval.Executable
import Columnar.Tree

/-!
# Pipelines

All parts together: batches are broadcast as the settings ask for, and every partition of the
dataset that replays them is filtered by a condition. The condition is also given as a tree for
others to execute.
-/

namespace Columnar

/-- What a pipeline is made from. -/
structure Plan where
  /-- The settings, as pairs of keys and values. -/
  settings : List (String × String)
  /-- The batches, one list for each block. -/
  groups : List (List Batch)
  /-- The fields of the batches. -/
  fields : List Field
  /-- The condition on rows. -/
  condition : Expr
  /-- The number of partitions. -/
  numPartitions : UInt64
  /-- Whether batches are checked against the fields when they are read. -/
  enforce : Bool

/-- Batches that are ready to be read and filtered. -/
structure Pipeline where
  /-- How blocks are coded. -/
  codec : Block.Codec
  /-- The condition as a tree. -/
  tree : ExpressionTree
  /-- The dataset that replays the batches. -/
  dataset : Dataset Block.Reader Host
  /-- The condition as a filter. -/
  filter : Filter

namespace Pipeline

/-- The name of the value of the condition. -/
def resultName : String := "keep"

/-- Prepares a pipeline: settings, codec, buffer, tree and filter, in this order. -/
def ofPlan (plan : Plan) (id : BroadcastId) (h : Host) : Except Error (Pipeline × Host) := do
  let settings ← Settings.ofPairs plan.settings
  let codec ← Block.Codec.ofSettings settings
  let (buffer, h) := Buffer.ofGroups codec id plan.groups h
  let tree ← plan.condition.toTree plan.fields resultName
  let dataset : Dataset Block.Reader Host :=
    { numPartitions := plan.numPartitions, buffer, source := codec.source
      fields := if plan.enforce then plan.fields else [] }
  let filter ← Filter.ofCondition plan.condition plan.fields
  return (⟨codec, tree, dataset, filter⟩, h)

/-- The rows of a partition that satisfy the condition, batch by batch. -/
def readPartition (p : Pipeline) (part : Partition) (run : Run Host) :
    Except Error (List Batch) × Run Host :=
  p.dataset.collectPartition p.filter.apply part run

/-- The rows of some partitions, each for itself. -/
def readAll (p : Pipeline) :
    List Partition → Run Host → List (Partition × Except Error (List Batch)) × Run Host
  | [], run => ([], run)
  | part :: parts, run =>
    let (r, run) := p.readPartition part run
    let (rest, run) := p.readAll parts run
    ((part, r) :: rest, run)

/-- The rows of all partitions. -/
def run (p : Pipeline) (h : Host) : List (Partition × Except Error (List Batch)) × Run Host :=
  p.readAll p.dataset.partitions ⟨{}, h⟩

end Pipeline

end Columnar
