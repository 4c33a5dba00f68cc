import Mathlib.Data.List.Dedup
import Mathlib.Data.UInt
import Csc412.Lib.Utf8

/-!
# The word count and the indexer

`mapreduceapps/wc.go` and `mapreduceapps/indexer.go`. Go strings are lists of bytes. The
table behind `unicode.IsLetter` is a parameter.
-/

namespace Csc412.MapReduce

open Lib

abbrev GoString := List UInt8

structure KeyValue where
  key : GoString
  value : GoString
deriving DecidableEq

def itoa (n : Nat) : GoString := (Nat.toDigits 10 n).map fun c => UInt8.ofNat c.toNat

def joinStrings (sep : GoString) (l : List GoString) : GoString := sep.intercalate l

section
variable (isLetter : Nat → Bool)

def words (contents : GoString) : List GoString := Utf8.fieldsFunc (fun r => !isLetter r) contents

def mapWC (_filename contents : GoString) : List KeyValue :=
  (words isLetter contents).map fun w => ⟨w, [0x31]⟩

/-- The pairs in the order of the words; the range over the map `m` may give them in any
other one. -/
def mapIndexer (document value : GoString) : List KeyValue :=
  (words isLetter value).dedup.map fun w => ⟨w, document⟩

end

def reduceWC (_key : GoString) (values : List GoString) : GoString := itoa values.length

/-- `sort.Strings` orders by bytes. -/
def sortStrings (values : List GoString) : List GoString :=
  values.mergeSort fun a b => decide (a ≤ b)

/-- The text of `"%d %s"`. -/
def reduceIndexer (_key : GoString) (values : List GoString) : GoString :=
  itoa values.length ++ 0x20 :: joinStrings [0x2C] (sortStrings values)

/-- The values of a key, as both drivers hand them to the reduce function. -/
def valuesOf (key : GoString) (kva : List KeyValue) : List GoString :=
  (kva.filter fun kv => kv.key = key).map KeyValue.value

end Csc412.MapReduce
