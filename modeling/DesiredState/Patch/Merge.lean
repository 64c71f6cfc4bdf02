import DesiredState.Json.Basic

/-!
Merging a document into another.
Objects are merged member by member and a null removes its member; any other
value replaces what was there.
-/
namespace DesiredState.Json

mutual

def merge : Json → Json → Json
  | v, obj changes =>
    match v with
    | obj members => obj (mergeMembers members changes)
    | _ => obj changes
  | _, v => v

def mergeMembers (members : List (String × Json)) : List (String × Json) → List (String × Json)
  | [] => members
  | (k, change) :: rest =>
    let merged :=
      if change.isNull then Entries.erase k members
      else Entries.insert k (merge ((Entries.get? members k).getD null) change) members
    mergeMembers merged rest

end

end DesiredState.Json
