import RestQuery.Query.Condition

/-!
# Records

A record has a kind, the attributes of its row, and what is attached to it under the names of
relations: nothing as long as a relation is not resolved, or the knowledge that it leads nowhere,
or the row or record that it leads to.

* `Row`, `Record`, `Attachment`                              the types;
* `Record.attach`, `Record.detach`, `Record.attachment?`     what is attached under a name;
* `Record.toTree`                                            the JSON form, attributes first.
-/

namespace RestQuery

open Json

/-- a record as the provider returns it -/
abbrev Row := Object

mutual

/-- a row of some kind, with what is attached to it -/
structure Record where
  kind : String
  attributes : List (String × Value)
  attached : List (String × Attachment)

/-- what a relation leads to -/
inductive Attachment where
  /-- the relation leads nowhere -/
  | null
  | row (row : List (String × Value))
  | record (record : Record)

end

namespace Record

/-- a row with nothing attached -/
def ofRow (kind : String) (row : Row) : Record := { kind, attributes := row, attached := [] }

instance : Inhabited Record := ⟨ofRow "" []⟩

def attribute? (r : Record) (name : String) : Option Value := NameMap.find? name r.attributes

def id? (r : Record) : Option Value := r.attribute? idColumn

/-- what is attached under a name, if anything is -/
def attachment? (r : Record) (name : String) : Option Attachment := NameMap.find? name r.attached

/-- attach under a name, in place of what was there -/
def attach (r : Record) (name : String) (a : Attachment) : Record :=
  { r with attached := NameMap.insert name a r.attached }

/-- attach nothing under a name -/
def detach (r : Record) (name : String) : Record :=
  { r with attached := NameMap.erase name r.attached }

theorem attachment?_attach (r : Record) (name : String) (a : Attachment) (k : String) :
    (r.attach name a).attachment? k = if k = name then some a else r.attachment? k :=
  NameMap.find?_insert name a k r.attached

theorem attachment?_detach (r : Record) (name k : String) :
    (r.detach name).attachment? k = if k = name then none else r.attachment? k :=
  NameMap.find?_erase name k r.attached

end Record

/-! ## JSON form -/

mutual

/-- attributes and then attachments in one object; the kind is not written -/
def Record.toTree : Record → Tree
  | ⟨_, attributes, attached⟩ => .obj (Value.toMembers attributes ++ attachmentMembers attached)

/-- attachments as members -/
def attachmentMembers : List (String × Attachment) → List (List CodePoint × Tree)
  | [] => []
  | (name, a) :: rest => (CodePoint.ofString name, a.toTree) :: attachmentMembers rest

/-- a row and a record are written alike -/
def Attachment.toTree : Attachment → Tree
  | .null => .null
  | .row row => .obj (Value.toMembers row)
  | .record r => r.toTree

end

end RestQuery
