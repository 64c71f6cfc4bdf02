import DesiredState.Schema.Shape

/-!
Writing a typed value as a configuration tree.
A key appears only for a value that is there, so absent fields leave no trace
and blank ones do.
-/
namespace DesiredState.Schema

/-- The value as far as a tree shows it. -/
def Presence.shown {α : Type} (p : Presence) (v : p.Held α) : Option α :=
  match p with
  | .required | .defaulted _ => some v
  | .optional | .expected | .reported => v
  | .internal => none

mutual

def Shape.flatten : (s : Shape) → s.Value → Tree
  | .leaf l, v => l.flatten v
  | .block fields, v => .block (fields.flatten v)
  | .blocks fields, items => .list (items.map (fun v => .map (fields.flatten v)))
  | .backend, b => .block b.flatten

def Fields.flatten : (fields : Fields) → fields.Value → List (String × Tree)
  | .nil, _ => []
  | .typed _ _ rest, v => rest.flatten v
  | .cons field shape rest, (v, vs) =>
    Entries.insert? field.key ((field.presence.shown v).map shape.flatten) (rest.flatten vs)

end

theorem Fields.flatten_cons {field : Field} {shape : Shape} {rest : Fields}
    (v : field.presence.Held shape.Value) (vs : rest.Value) :
    (Fields.cons field shape rest).flatten (v, vs) =
      Entries.insert? field.key ((field.presence.shown v).map shape.flatten)
        (rest.flatten vs) := rfl

end DesiredState.Schema
