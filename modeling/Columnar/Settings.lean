import Columnar.Compression.Algorithm
import Columnar.Json.Parser
import Columnar.Json.Record
import Columnar.Text

/-!
# Settings

The settings of broadcasting: whether and how blocks are compressed, and how buffers are cached.
They come as pairs of a key and a value, or as a JSON document; what is not mentioned keeps its
default. In both cases the ranges of the values are checked at the end.
-/

namespace Columnar

open Compression (Algorithm)

/-- The settings of broadcasting. -/
structure Settings where
  /-- Whether blocks are compressed. -/
  compress : Bool := true
  /-- How blocks are compressed. -/
  codec : Algorithm := .lz4
  /-- The level of the one algorithm that has levels. -/
  zstdLevel : Int32 := 1
  /-- How many buffers a cache keeps. -/
  cacheCapacity : UInt64 := 64
  /-- For how many seconds a cache keeps a buffer that is not used. -/
  cacheIdleSeconds : UInt64 := 1800
deriving DecidableEq, Repr

namespace Settings

/-- The settings that pairs can change. -/
inductive Key where
  /-- Whether blocks are compressed. -/
  | compress
  /-- How blocks are compressed. -/
  | codec
  /-- The compression level. -/
  | zstdLevel
  /-- The capacity of a cache. -/
  | cacheCapacity
  /-- The idle time of a cache. -/
  | cacheIdleSeconds
deriving DecidableEq, Repr

namespace Key

/-- The beginning of the names of all keys. -/
def domain : String := "nativesql."

/-- The name of a key. -/
def name : Key → String
  | compress => "nativesql.broadcast.compress"
  | codec => "nativesql.io.compression.codec"
  | zstdLevel => "nativesql.io.compression.zstd.level"
  | cacheCapacity => "nativesql.broadcast.cache.capacity"
  | cacheIdleSeconds => "nativesql.broadcast.cache.idleTimeoutSecs"

/-- All keys. -/
def all : List Key :=
  [compress, codec, zstdLevel, cacheCapacity, cacheIdleSeconds]

/-- The key of a name. -/
def ofName? (s : String) : Option Key :=
  all.find? (·.name == s)

end Key

/-! ### Values -/

/-- What is wrong with a setting. -/
inductive Fault where
  /-- A value that cannot be read; `reason` says why not. -/
  | badValue (key : Key) (value reason : String)
  /-- A level that does not exist. -/
  | badLevel (level : Int32)
  /-- A cache that holds nothing. -/
  | noCapacity
deriving DecidableEq, Repr

/-- The error of a fault. -/
def Fault.toError (f : Fault) : Error :=
  let message := match f with
    | badValue key value reason => s!"Invalid value '{value}' for {key.name}: {reason}"
    | badLevel level => s!"{Key.zstdLevel.name} must be between 1 and 22, got {level.toInt}"
    | noCapacity => s!"{Key.cacheCapacity.name} must be positive"
  ⟨.configuration, message, none⟩

/-- Reads a truth value. -/
def parseBool (s : List Char) : Except String Bool :=
  if s = "true".toList then .ok true
  else if s = "false".toList then .ok false
  else .error "provided string was not \x60true\x60 or \x60false\x60"

/-- Reads a 32-bit integer. -/
def parseInt32 (s : List Char) : Except String Int32 :=
  match Text.parseInteger (-2 ^ 31) (2 ^ 31 - 1) s with
  | .ok n => .ok (Int32.ofInt n)
  | .error fault => .error fault.text

/-- Reads a 64-bit natural number. -/
def parseUInt64 (s : List Char) : Except String UInt64 :=
  match Text.parseInteger 0 (2 ^ 64 - 1) s with
  | .ok n => .ok (UInt64.ofNat n.toNat)
  | .error fault => .error fault.text

/-- Reads the value of a key, without the white space around it. -/
def parseValue {α : Type} (parse : List Char → Except String α) (key : Key) (value : String) :
    Except Error α :=
  (parse (Text.trim value.toList)).mapError fun reason => (Fault.badValue key value reason).toError

/-- Changes the setting of a key to the value that a text stands for. -/
def set (key : Key) (value : String) (s : Settings) : Except Error Settings :=
  match key with
  | .compress => return { s with compress := ← parseValue parseBool key value }
  | .codec => return { s with codec := ← Algorithm.parse value }
  | .zstdLevel => return { s with zstdLevel := ← parseValue parseInt32 key value }
  | .cacheCapacity => return { s with cacheCapacity := ← parseValue parseUInt64 key value }
  | .cacheIdleSeconds => return { s with cacheIdleSeconds := ← parseValue parseUInt64 key value }

/-- Checks the ranges of the values. -/
def validate (s : Settings) : Except Error Unit :=
  if s.zstdLevel < 1 ∨ 22 < s.zstdLevel then .error (Fault.badLevel s.zstdLevel).toError
  else if s.cacheCapacity = 0 then .error Fault.noCapacity.toError
  else .ok ()

/-! ### Pairs -/

/-- Changes the settings that pairs of keys and values name; other pairs are passed over. -/
def setAll (s : Settings) : List (String × String) → Except Error Settings
  | [] => .ok s
  | (name, value) :: pairs =>
    match Key.ofName? name with
    | some key => do (← s.set key value).setAll pairs
    | none => s.setAll pairs

/-- The settings that pairs of keys and values describe. -/
def ofPairs (pairs : List (String × String)) : Except Error Settings := do
  let s ← ({} : Settings).setAll pairs
  s.validate
  return s

/-- The keys that look like settings but are none, and that a person should be warned of. -/
def unknownKeys (pairs : List (String × String)) : List String :=
  (pairs.map (·.1)).filter fun name =>
    Key.domain.toList.isPrefixOf name.toList && (Key.ofName? name).isNone

/-- The warning about an unknown key. -/
def unknownKeyText (name : String) : String :=
  s!"Ignoring unknown configuration key: {name}"

/-! ### Documents -/

/-- Settings as a document. -/
def toJson (s : Settings) : Json :=
  .ofMembers [("broadcastCompress", .bool s.compress), ("compressionCodec", .ofString s.codec.name),
    ("zstdLevel", .ofInt s.zstdLevel.toInt),
    ("broadcastCacheCapacity", .ofInt s.cacheCapacity.toNat),
    ("broadcastCacheIdleSecs", .ofInt s.cacheIdleSeconds.toNat)]

/-- Reads an algorithm: its exact name, or an object with that name and null. -/
def algorithmOfJson? : Json → Option Algorithm
  | .string s => do Algorithm.ofName? (← s)
  | .object [(some name, .null)] => Algorithm.ofName? name
  | _ => none

/-- Reads settings from a document, without checking their ranges. -/
def ofJson? (j : Json) : Option Settings := do
  let names := ["broadcastCompress", "compressionCodec", "zstdLevel", "broadcastCacheCapacity",
    "broadcastCacheIdleSecs"]
  let [compress, codec, zstdLevel, cacheCapacity, cacheIdleSeconds] ← j.record? names | none
  let s : Settings := {}
  let part {α : Type} (default : α) (read : Json → Option α) : Option Json → Option α
    | some j => read j
    | none => some default
  return {
    compress := ← part s.compress Json.bool? compress
    codec := ← part s.codec algorithmOfJson? codec
    zstdLevel := ← part s.zstdLevel (fun j => (j.signed? 32).map Int32.ofInt) zstdLevel
    cacheCapacity := ←
      part s.cacheCapacity (fun j => (j.unsigned? 64).map UInt64.ofNat) cacheCapacity
    cacheIdleSeconds := ←
      part s.cacheIdleSeconds (fun j => (j.unsigned? 64).map UInt64.ofNat) cacheIdleSeconds }

/-- The settings that the text of a document describes. -/
def ofDocument (text : String) : Except Error Settings :=
  match (Json.parse? text).bind ofJson? with
  | some s => do
    s.validate
    return s
  | none =>
    .error (.wrap .configuration "Malformed configuration document" "no document of settings")

/-! ### Use -/

/-- How blocks are to be compressed, if they are. -/
def blockCompression (s : Settings) : Option Compression.Config :=
  if s.compress then
    let config := Compression.Config.ofAlgorithm s.codec
    some (if s.codec.supportsLevels then { config with level := some s.zstdLevel } else config)
  else none

end Settings

end Columnar
