import DesiredState.Kind.Basic
import DesiredState.Text.Blank
import DesiredState.Text.Numeral
import DesiredState.Time.Duration

/-!
Settings of a reconciliation, with defaults and overrides by name.
A numeral may have blanks around it; an override that cannot be read keeps the
default.
-/
namespace DesiredState

structure Settings where
  /-- Bound on the readiness wait of a Deployment. -/
  deploymentTimeout : Duration
  /-- Bound on the readiness wait of a StatefulSet. -/
  statefulSetTimeout : Duration
  /-- How many warnings a timeout tells of. -/
  warningLimit : Nat
  leastDelay : Duration
  greatestDelay : Duration
  /-- The namespace of objects that name none. -/
  defaultNamespace : String
deriving DecidableEq, Repr

namespace Settings

def initial : Settings where
  deploymentTimeout := .ofSeconds 1200
  statefulSetTimeout := .ofSeconds 300
  warningLimit := 3
  leastDelay := .ofMilliseconds 100
  greatestDelay := .ofSeconds 10
  defaultNamespace := "default"

def numeral? (lookup : String → Option String) (name : String) : Option Nat :=
  (lookup name).bind (fun text => Text.nat64? (Text.trim text))

/-- Only blanks count as nothing said; a text with more is taken as it is. -/
def ns? (lookup : String → Option String) (name : String) : Option String :=
  (lookup name).filter (fun text => !(Text.trim text).isEmpty)

def read (lookup : String → Option String) : Settings where
  deploymentTimeout :=
    ((numeral? lookup "KUBEFORM_DEPLOYMENT_TIMEOUT_SECS").map .ofSeconds).getD
      initial.deploymentTimeout
  statefulSetTimeout :=
    ((numeral? lookup "KUBEFORM_STATEFULSET_TIMEOUT_SECS").map .ofSeconds).getD
      initial.statefulSetTimeout
  warningLimit := (numeral? lookup "KUBEFORM_WARNING_EVENTS").getD initial.warningLimit
  leastDelay :=
    ((numeral? lookup "KUBEFORM_POLL_MIN_MS").map .ofMilliseconds).getD initial.leastDelay
  greatestDelay :=
    ((numeral? lookup "KUBEFORM_POLL_MAX_MS").map .ofMilliseconds).getD initial.greatestDelay
  defaultNamespace :=
    (ns? lookup "KUBEFORM_DEFAULT_NAMESPACE").getD initial.defaultNamespace

/-- The readiness bound of a kind; only the scaled kinds have one. -/
def readinessTimeout (s : Settings) : Kind → Option Duration
  | .deployment => some s.deploymentTimeout
  | .statefulSet => some s.statefulSetTimeout
  | _ => none

end Settings

/-- The readiness bound of a kind before any settings. -/
def Kind.readinessTimeout (k : Kind) : Option Duration := Settings.initial.readinessTimeout k

end DesiredState
