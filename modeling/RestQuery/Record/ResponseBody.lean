import RestQuery.Json.Decode
import RestQuery.Record.Basic

/-!
# Bodies of responses

The body of the response to a read: its rows, and the rows that were asked to come along, which lie
in buckets.

* `Buckets`                                      lists of rows by the name of their bucket;
* `ResponseBody`, `ResponseBody.decode`          the body;
* `ResponseBody.records`, `ResponseBody.buckets`   its two parts.
-/

namespace RestQuery

open Json

/-- lists of rows by the name of their bucket -/
abbrev Buckets := NameMap (List Row)

/-- the buckets of an object; of two with one name the last one counts -/
def Buckets.decode : Decoder Buckets
  | s, .obj ms => do
    let inner ← s.inside?
    let buckets ← ms.mapM fun m => do
      let name ← CodePoint.decode? m.1
      let rows ← Decoder.list Decoder.object inner m.2
      return (name, rows)
    return NameMap.ofList buckets
  | _, _ => none

/-- the body of a response -/
structure ResponseBody where
  data : List Row := []
  referenced : Option Buckets := none
deriving Inhabited

namespace ResponseBody

def decode : Decoder ResponseBody := fun s t => do
  let f ← Fields.of? ["data", "referencedEntities"] s t
  let data ← f.optional "data" (Decoder.list Decoder.object) []
  let referenced ← f.optional "referencedEntities" (Decoder.nullable Buckets.decode) none
  return { data, referenced }

/-- the rows as records of a kind -/
def records (b : ResponseBody) (kind : String) : List Record := b.data.map (Record.ofRow kind)

/-- the buckets, none if the body has no such part -/
def buckets (b : ResponseBody) : Buckets := b.referenced.getD []

end ResponseBody

end RestQuery
