import DesiredState.Schema.Shape

/-!
Reading a typed value from a document.
Members that the schema does not know are ignored. A member that is missing or
null means an absent or blank value; one of the wrong type is refused, and so
is an object that names another type than its own.
-/
namespace DesiredState.Schema

/-- What a presence makes of a member that is or is not there. -/
def Presence.received {α : Type} (p : Presence) (found : Option α) (blank : α) : p.Held α :=
  match p with
  | .required | .defaulted _ => found.getD blank
  | .optional | .expected | .reported | .internal => found

/-- A type name may be left out but not be another one. -/
def namesType (members : List (String × Json)) (key name : String) : Bool :=
  match Entries.get? members key with
  | some v => v.asString? == some name
  | none => true

mutual

def Shape.decode : (s : Shape) → Json → Option s.Value
  | .leaf l, v => l.decode v
  | .block fields, v => v.members?.bind fields.decode
  | .blocks fields, v => v.items?.bind (·.mapM (fun x => x.members?.bind fields.decode))
  | .backend, v => Backend.decode v

def Fields.decode : (fields : Fields) → List (String × Json) → Option fields.Value
  | .nil, _ => some ()
  | .typed apiVersion kind rest, members =>
    if namesType members "apiVersion" apiVersion && namesType members "kind" kind then
      rest.decode members
    else none
  | .cons field shape rest, members => do
    let found ← Json.readMember (.obj members) field.member shape.decode
    return (field.presence.received found shape.blank, ← rest.decode members)

end

theorem Fields.decode_typed (apiVersion kind : String) (rest : Fields)
    (members : List (String × Json)) :
    (Fields.typed apiVersion kind rest).decode members =
      if namesType members "apiVersion" apiVersion && namesType members "kind" kind then
        rest.decode members
      else none := rfl

theorem Fields.decode_cons (field : Field) (shape : Shape) (rest : Fields)
    (members : List (String × Json)) :
    (Fields.cons field shape rest).decode members = (do
      let found ← Json.readMember (.obj members) field.member shape.decode
      return (field.presence.received found shape.blank, ← rest.decode members)) := rfl

end DesiredState.Schema
