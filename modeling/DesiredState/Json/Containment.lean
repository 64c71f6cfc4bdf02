import DesiredState.Json.Basic

/-!
Containment of documents.
An object is contained in one that has each of its members, and an array in
one of the same length; anything else only in an equal value.
-/
namespace DesiredState.Json

mutual

def containedIn : Json → Json → Bool
  | obj d, p =>
    match p with
    | obj p => membersContainedIn d p
    | _ => false
  | arr d, p =>
    match p with
    | arr p => itemsContainedIn d p
    | _ => false
  | d, p => d == p

/-- Element by element, so the lengths agree. -/
def itemsContainedIn : List Json → List Json → Bool
  | [], [] => true
  | d :: ds, p :: ps => d.containedIn p && itemsContainedIn ds ps
  | _, _ => false

def membersContainedIn : List (String × Json) → List (String × Json) → Bool
  | [], _ => true
  | (k, d) :: ds, p =>
    (match Entries.get? p k with
      | some v => d.containedIn v
      | none => false) && membersContainedIn ds p

end

end DesiredState.Json
