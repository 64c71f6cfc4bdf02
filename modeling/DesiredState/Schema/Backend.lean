import DesiredState.Schema.Leaf

/-!
The backend of an ingress: a service and one of its ports.
A tree names the port by one text, where a numeral means the number; a
document keeps number and name apart, and a number there wins over a name. A
live backend may lack its service, but a configured one has it.
-/
namespace DesiredState.Schema

structure ServicePort where
  number? : Option Int32
  name? : Option String
deriving DecidableEq, Repr

structure Service where
  name : String
  port? : Option ServicePort
deriving DecidableEq, Repr

/-- The service behind an ingress, if the backend names one. -/
structure Backend where
  service? : Option Service
deriving DecidableEq, Repr

namespace ServicePort

def ofText (s : String) : ServicePort :=
  match Text.int32? s with
  | some i => ⟨some i, none⟩
  | none => ⟨none, some s⟩

def toText? (p : ServicePort) : Option String :=
  match p.number?, p.name? with
  | some i, _ => some (Text.intText i.toInt)
  | none, name => name

def encode (p : ServicePort) : Json :=
  .obj (Entries.insert? "number" (p.number?.map (fun i => Json.int i.toInt))
    (Entries.insert? "name" (p.name?.map .str) []))

def decode (v : Json) : Option ServicePort := do
  let _ ← v.members?
  return ⟨← v.readMember "number" Json.asInt32?, ← v.readMember "name" Json.asString?⟩

end ServicePort

namespace Service

def encode (s : Service) : Json :=
  .obj (Entries.insert "name" (.str s.name)
    (Entries.insert? "port" (s.port?.map ServicePort.encode) []))

def decode (v : Json) : Option Service := do
  let _ ← v.members?
  let name ← v.readMember "name" Json.asString?
  return ⟨name.getD "", ← v.readMember "port" ServicePort.decode⟩

end Service

namespace Backend

def blank : Backend := ⟨none⟩

/-- The port is read before the name, so its fault is the one reported. -/
def expand (path : Path) (entries : List (String × Tree)) : Checked Backend := do
  let port ← match Entries.get? entries "service_port" with
    | some t => (Leaf.text.expand (path ++ ["service_port"]) t).map (some ∘ ServicePort.ofText)
    | none => .ok none
  match Entries.get? entries "service_name" with
  | some t =>
    let name ← Leaf.text.expand (path ++ ["service_name"]) t
    return ⟨some ⟨name, port⟩⟩
  | none => .error ⟨path ++ ["service_name"], .missing⟩

def flatten (b : Backend) : List (String × Tree) :=
  let port := b.service?.bind (fun s => s.port?.bind ServicePort.toText?)
  Entries.insert? "service_name" (b.service?.map (fun s => Tree.str s.name))
    (Entries.insert? "service_port" (port.map .str) [])

def encode (b : Backend) : Json :=
  .obj (Entries.insert? "service" (b.service?.map Service.encode) [])

def decode (v : Json) : Option Backend := do
  let _ ← v.members?
  return ⟨← v.readMember "service" Service.decode⟩

end Backend

end DesiredState.Schema
