import DesiredState.Kind.Object
import DesiredState.Patch.Diff
import DesiredState.Resource

/-!
Patches and replacements between configuration trees of a kind. Both trees are
expanded and encoded before they are compared.
-/
namespace DesiredState.Patch

def document (k : Kind) (t : Tree) : Except Error Json := do
  return (← Object.expand k t).encode

/-- The patch from one configuration to another. -/
def betweenTrees (k : Kind) (previous desired : Tree) : Except Error (List Operation) := do
  let p ← document k previous
  let d ← document k desired
  return between p d k.plan

/--
The force-new fields whose desired value differs from the observed one. Only
fields that changed in the trees are looked at; without any, nothing is
expanded.
-/
def replacedFields (k : Kind) (r : Resource) : Except Error (List String) := do
  let candidates := k.plan.filter (fun rule => rule.isForceNew && r.hasChange rule.name)
  if candidates.isEmpty then return []
  else
    let p ← document k r.observed
    let d ← document k r.desired
    return (candidates.filter (needsReplacement · p d)).map Rule.name

end DesiredState.Patch
