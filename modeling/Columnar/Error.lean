/-!
# Errors

One error type for the whole library: a kind, a message, and the text of the failure that caused it,
if there was one. The kind alone decides how grave an error is, which area it belongs to, what to
suggest and whether running the task again can help.

Modules that fail for reasons of their own say so with a type of causes and turn a cause into an
`Error` in one place; the wording of every message is found there.
-/

namespace Columnar

/-- What went wrong, as far as a caller has to tell failures apart. -/
inductive Error.Kind where
  /-- An operator that no backend can express. -/
  | unsupportedOperator
  /-- A column reference that does not resolve. -/
  | unresolvedReference
  /-- A type outside the supported ones. -/
  | unsupportedType
  /-- A refusal by a node builder or by evaluation. -/
  | native
  /-- A block that cannot be what its writer produced. -/
  | corruptData
  /-- A partition index outside the dataset. -/
  | invalidPartition
  /-- Writing a binary or text form failed. -/
  | serialization
  /-- Reading a binary or text form failed. -/
  | deserialization
  /-- Compressing a block failed. -/
  | compression
  /-- Decompressing a block failed. -/
  | decompression
  /-- A setting has no meaning or is out of range. -/
  | configuration
  /-- A memory reservation was refused. -/
  | resourceExhausted
deriving DecidableEq, Repr

/-- A failure, with the text of its cause where another failure led to it. -/
structure Error where
  /-- The kind of failure. -/
  kind : Error.Kind
  /-- The message, without the heading of its kind. -/
  message : String
  /-- The text of the failure underneath. -/
  source : Option String := none
deriving DecidableEq, Repr

/-- How grave a failure is. -/
inductive Error.Severity where
  /-- Work can go on with less. -/
  | low
  /-- Another attempt or another path should be taken. -/
  | medium
  /-- The task has to end. -/
  | high
deriving DecidableEq, Repr

/-- The area of work a failure belongs to. -/
inductive Error.Category where
  /-- Compiling expressions. -/
  | planning
  /-- Encoding and decoding data. -/
  | dataProcessing
  /-- Settings. -/
  | configuration
  /-- Memory and the like. -/
  | resource
  /-- Faults of the caller's own logic. -/
  | internal
deriving DecidableEq, Repr

namespace Error

/-- The words that open the text of every error of a kind. -/
def Kind.heading : Kind → String
  | unsupportedOperator => "Unsupported operator"
  | unresolvedReference => "Unresolved reference"
  | unsupportedType => "Unsupported data type"
  | native => "Native library error"
  | corruptData => "Corrupt broadcast data"
  | invalidPartition => "Invalid partition"
  | serialization => "Serialization failed"
  | deserialization => "Deserialization failed"
  | compression => "Compression failed"
  | decompression => "Decompression failed"
  | configuration => "Invalid configuration"
  | resourceExhausted => "Resource exhausted"

/-- The full text of an error. -/
def text (e : Error) : String :=
  e.kind.heading ++ ": " ++ e.message

/-- Names a place in front of the message; kind and source stay. -/
def inContext (context : String) (e : Error) : Error :=
  { e with message := context ++ ": " ++ e.message }

/-- How grave an error is. -/
def severity (e : Error) : Severity :=
  match e.kind with
  | .serialization | .deserialization | .decompression | .resourceExhausted => .medium
  | .compression => .low
  | _ => .high

/-- The area of work an error belongs to. -/
def category (e : Error) : Category :=
  match e.kind with
  | .unsupportedOperator | .unresolvedReference | .unsupportedType | .native => .planning
  | .corruptData | .serialization | .deserialization | .compression | .decompression =>
    .dataProcessing
  | .configuration => .configuration
  | .resourceExhausted => .resource
  | .invalidPartition => .internal

/-- What a person can do about an error. -/
def suggestions (e : Error) : List String :=
  match e.kind with
  | .unsupportedOperator =>
    ["Fall back to the row-based execution path for this expression",
      "Add a lowering row for the operator to the native dispatch table"]
  | .unresolvedReference =>
    ["Check that the input field list matches the child operator's output"]
  | .unsupportedType => ["Cast the column to a supported type before native execution"]
  | .native =>
    ["Verify the native backend recognises the emitted function names",
      "Check function arity and result types against the registry"]
  | .corruptData =>
    ["Verify both sides use the same block compression codec",
      "Re-run the stage so the broadcast is rebuilt"]
  | .invalidPartition => ["Partition indices must be below the configured partition count"]
  | .serialization | .deserialization =>
    ["Check serialization format versions on both sides"]
  | .compression | .decompression => ["Verify compression algorithm parameters"]
  | .configuration => ["Review the nativesql.* configuration keys and values"]
  | .resourceExhausted =>
    ["Increase the memory pool limit", "Reduce the size of the broadcast side"]

/-- Whether running the task again can help: only memory may be free later. -/
def isRetryable (e : Error) : Bool :=
  e.kind == .resourceExhausted

/-- How long to wait before another attempt, in milliseconds. -/
def retryDelayMs (e : Error) : Option Nat :=
  if e.isRetryable then some 5000 else none

/-- Reads the failure `source` as an error of kind `kind`, keeping it as the source. -/
def wrap (kind : Kind) (message source : String) : Error :=
  { kind, message, source := some source }

end Error

end Columnar
