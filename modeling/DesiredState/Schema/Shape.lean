import DesiredState.Schema.Backend

/-!
Schemas as data.
A shape is a leaf, a block of fields, a list of such blocks, or a backend. A
field has a key in the tree, a member in the document, and a presence that
says what happens where it is missing. `Value` gives the typed value of a
shape; the fields of a block make a product in their order, which is also the
order in which they are checked.
-/
namespace DesiredState.Schema

inductive Presence where
  | optional
  /-- The tree must have it; a document without it means the blank value. -/
  | required
  /-- The tree must have it; a document may lack it. -/
  | expected
  /-- A tree without it means this text, or the blank value of another shape. -/
  | defaulted (text : String)
  /-- Set by the store: shown in the tree, never taken from it. -/
  | reported
  /-- Set by the store and not shown in the tree. -/
  | internal
deriving DecidableEq, Repr

structure Field where
  key : String
  member : String
  presence : Presence
deriving DecidableEq, Repr

mutual

inductive Shape where
  | leaf (leaf : Leaf)
  /-- At most one block: in the tree a list of at most one map. -/
  | block (fields : Fields)
  | blocks (fields : Fields)
  | backend

inductive Fields where
  | nil
  /-- The document also names the type of the object. -/
  | typed (apiVersion kind : String) (rest : Fields)
  | cons (field : Field) (shape : Shape) (rest : Fields)

end

deriving instance DecidableEq for Shape
deriving instance DecidableEq for Fields

/-- How a value is held: blank values stand in for missing ones, or there may be none. -/
@[reducible] def Presence.Held (p : Presence) (α : Type) : Type :=
  match p with
  | .required | .defaulted _ => α
  | .optional | .expected | .reported | .internal => Option α

mutual

@[reducible] def Shape.Value : Shape → Type
  | .leaf l => l.Value
  | .block fields => fields.Value
  | .blocks fields => List fields.Value
  | .backend => Backend

@[reducible] def Fields.Value : Fields → Type
  | .nil => Unit
  | .typed _ _ rest => rest.Value
  | .cons field shape rest => field.presence.Held shape.Value × rest.Value

end

def Presence.blank {α : Type} (p : Presence) (value : α) : p.Held α :=
  match p with
  | .required | .defaulted _ => value
  | .optional | .expected | .reported | .internal => none

mutual

/-- The value of a shape that nothing was said about. -/
def Shape.blank : (s : Shape) → s.Value
  | .leaf l => l.blank
  | .block fields => fields.blank
  | .blocks _ => []
  | .backend => Backend.blank

def Fields.blank : (fields : Fields) → fields.Value
  | .nil => ()
  | .typed _ _ rest => rest.blank
  | .cons field shape rest => (field.presence.blank shape.blank, rest.blank)

end

def Shape.isBlock : Shape → Bool
  | .block _ | .backend => true
  | .leaf _ | .blocks _ => false

/-- The value that a default stands for. -/
def Shape.fallback (text : String) : (s : Shape) → s.Value
  | .leaf .text => text
  | s => s.blank

/-- A field with its shape, as schemas are written. -/
structure Column where
  field : Field
  shape : Shape

@[reducible] def Fields.ofList : List Column → Fields
  | [] => .nil
  | c :: rest => .cons c.field c.shape (ofList rest)

def optional (key member : String) (shape : Shape) : Column := ⟨⟨key, member, .optional⟩, shape⟩

def required (key member : String) (shape : Shape) : Column := ⟨⟨key, member, .required⟩, shape⟩

def expected (key member : String) (shape : Shape) : Column := ⟨⟨key, member, .expected⟩, shape⟩

def defaulted (key member text : String) (shape : Shape) : Column :=
  ⟨⟨key, member, .defaulted text⟩, shape⟩

def reported (key member : String) (leaf : Leaf) : Column :=
  ⟨⟨key, member, .reported⟩, .leaf leaf⟩

def internal (member : String) (shape : Shape) : Column := ⟨⟨member, member, .internal⟩, shape⟩

end DesiredState.Schema
