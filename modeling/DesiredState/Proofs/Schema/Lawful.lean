import DesiredState.Kind.Basic

/-!
Schemas that can be read back.
No key and no member occurs twice among the fields of one block, at any depth,
so a field is written and read without regard to the others. A default stands
for a text, for no blocks, or for a block that need not hold anything. The
fields of every kind are so.
-/
namespace DesiredState

namespace Schema

/-- The keys of a block in a tree. -/
def Fields.keys : Fields → List String
  | .nil => []
  | .typed _ _ rest => rest.keys
  | .cons field _ rest => field.key :: rest.keys

/-- The members of a block in a document, those of its type included. -/
def Fields.members : Fields → List String
  | .nil => []
  | .typed _ _ rest => "apiVersion" :: "kind" :: rest.members
  | .cons field _ rest => field.member :: rest.members

/-- Every field may be missing. -/
def Fields.Hollow : Fields → Prop
  | .nil => True
  | .typed _ _ rest => rest.Hollow
  | .cons field _ rest =>
    (field.presence = .optional ∨ field.presence = .reported ∨ field.presence = .internal) ∧
      rest.Hollow

/-- What a default can stand for. -/
def Shape.Defaultable : Shape → Prop
  | .leaf l => l = .text
  | .block fields => fields.Hollow
  | .blocks _ => True
  | .backend => False

def Presence.Suits (p : Presence) (s : Shape) : Prop :=
  match p with
  | .defaulted _ => s.Defaultable
  | _ => True

mutual

def Shape.Lawful : Shape → Prop
  | .leaf _ | .backend => True
  | .block fields | .blocks fields => fields.Lawful

def Fields.Lawful : Fields → Prop
  | .nil => True
  | .typed _ _ rest => "apiVersion" ∉ rest.members ∧ "kind" ∉ rest.members ∧ rest.Lawful
  | .cons field shape rest =>
    (field.key ∉ rest.keys ∧ field.member ∉ rest.members ∧ field.presence.Suits shape) ∧
      shape.Lawful ∧ rest.Lawful

end

def Fields.decideHollow : (fields : Fields) → Decidable fields.Hollow
  | .nil => isTrue trivial
  | .typed _ _ rest => rest.decideHollow
  | .cons field _ rest =>
    let _ := rest.decideHollow
    inferInstanceAs (Decidable ((field.presence = .optional ∨ field.presence = .reported ∨
      field.presence = .internal) ∧ rest.Hollow))

def Shape.decideDefaultable : (s : Shape) → Decidable s.Defaultable
  | .leaf l => inferInstanceAs (Decidable (l = .text))
  | .block fields => fields.decideHollow
  | .blocks _ => isTrue trivial
  | .backend => isFalse id

def Presence.decideSuits (s : Shape) : (p : Presence) → Decidable (p.Suits s)
  | .defaulted _ => s.decideDefaultable
  | .optional | .required | .expected | .reported | .internal => isTrue trivial

mutual

def Shape.decideLawful : (s : Shape) → Decidable s.Lawful
  | .leaf _ | .backend => isTrue trivial
  | .block fields | .blocks fields => fields.decideLawful

def Fields.decideLawful : (fields : Fields) → Decidable fields.Lawful
  | .nil => isTrue trivial
  | .typed _ _ rest =>
    let _ := rest.decideLawful
    inferInstanceAs (Decidable (_ ∧ _ ∧ rest.Lawful))
  | .cons field shape rest =>
    let _ := field.presence.decideSuits shape
    let _ := shape.decideLawful
    let _ := rest.decideLawful
    inferInstanceAs (Decidable ((field.key ∉ rest.keys ∧ field.member ∉ rest.members ∧
      field.presence.Suits shape) ∧ shape.Lawful ∧ rest.Lawful))

end

instance (fields : Fields) : Decidable fields.Lawful := fields.decideLawful

end Schema

theorem Kind.lawful_fields (k : Kind) : k.fields.Lawful := by
  cases k <;> decide +kernel

end DesiredState
