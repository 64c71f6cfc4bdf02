import DesiredState.Text.Numeral
import DesiredState.Tree.Basic

/-!
Why a configuration tree does not fit its schema: the path of the offending
place and what is wrong there. The empty path is the root.
-/
namespace DesiredState.Tree

inductive Cause where
  | mismatch (wanted found : Form)
  | outOfRange (i : Int64)
  | tooManyBlocks (count : Nat)
  | missing
  | missingBlock
  | unnamed
deriving DecidableEq, Repr

structure Violation where
  path : List String
  cause : Cause
deriving DecidableEq, Repr

namespace Violation

def place (v : Violation) : String :=
  if v.path.isEmpty then "<root>" else String.intercalate "." v.path

def explanation : Cause → String
  | .mismatch wanted found => "expected " ++ wanted.name ++ ", found " ++ found.name
  | .outOfRange i => Text.intText i.toInt ++ " out of range"
  | .tooManyBlocks count => "at most one block allowed, found " ++ count.repr
  | .missing => "required"
  | .missingBlock => "required block missing"
  | .unnamed => "one of name or generate_name is required"

def message (v : Violation) : String := v.place ++ ": " ++ explanation v.cause

end Violation

end DesiredState.Tree
