import DesiredState.Schema.Shape

/-!
The document of a typed value. Absent values have no member; blank ones do.
-/
namespace DesiredState.Schema

/-- The value as far as a document holds it. -/
def Presence.sent {α : Type} (p : Presence) (v : p.Held α) : Option α :=
  match p with
  | .required | .defaulted _ => some v
  | .optional | .expected | .reported | .internal => v

mutual

def Shape.encode : (s : Shape) → s.Value → Json
  | .leaf l, v => l.encode v
  | .block fields, v => .obj (fields.encode v)
  | .blocks fields, items => .arr (items.map (fun v => .obj (fields.encode v)))
  | .backend, b => b.encode

def Fields.encode : (fields : Fields) → fields.Value → List (String × Json)
  | .nil, _ => []
  | .typed apiVersion kind rest, v =>
    Entries.insert "apiVersion" (.str apiVersion)
      (Entries.insert "kind" (.str kind) (rest.encode v))
  | .cons field shape rest, (v, vs) =>
    Entries.insert? field.member ((field.presence.sent v).map shape.encode) (rest.encode vs)

end

theorem Fields.encode_typed (apiVersion kind : String) (rest : Fields) (v : rest.Value) :
    (Fields.typed apiVersion kind rest).encode v =
      Entries.insert "apiVersion" (.str apiVersion)
        (Entries.insert "kind" (.str kind) (rest.encode v)) := rfl

theorem Fields.encode_cons {field : Field} {shape : Shape} {rest : Fields}
    (v : field.presence.Held shape.Value) (vs : rest.Value) :
    (Fields.cons field shape rest).encode (v, vs) =
      Entries.insert? field.member ((field.presence.sent v).map shape.encode)
        (rest.encode vs) := rfl

end DesiredState.Schema
