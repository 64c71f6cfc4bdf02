import DesiredState.Proofs.Schema.Place
import DesiredState.Proofs.Schema.Regrouped
import Mathlib.Data.List.Dedup

/-!
Excerpts of documents.
What an expanded object takes over from the document of another one is laid down
by an excerpt: the members that are kept, what stands for those that are always
written, and the few values that are not kept as they are. An excerpt is
about documents alone. The excerpt that a schema lays down gives the document
of what is configured of the value that the schema reads.
-/
namespace DesiredState

/-- The items of a set are those of a list once each, sorted. -/
theorem Tree.sortedItems_eq (items : List String) :
    sortedItems items = items.dedup.mergeSort := by
  have hmem : ∀ s, s ∈ items ↔ s ∈ items.dedup.mergeSort := by
    intro s
    rw [List.mem_mergeSort, List.mem_dedup]
  have hnodup : items.dedup.mergeSort.Nodup :=
    (List.mergeSort_perm _ _).nodup_iff.2 items.nodup_dedup
  have hsorted : items.dedup.mergeSort.Pairwise (fun a b => decide (a ≤ b) = true) :=
    List.pairwise_mergeSort
      (fun a b c hab hbc => by
        simpa using String.le_trans (of_decide_eq_true hab) (of_decide_eq_true hbc))
      (fun a b => by simpa using String.le_total a b) items.dedup
  rw [sortedItems_congr hmem]
  refine sortedItems_of_pairwise ((hsorted.and hnodup).imp fun h => ?_)
  exact Std.lt_of_le_of_ne (of_decide_eq_true h.1) h.2

/-- What is taken over from a value of a document. -/
inductive Excerpt where
  | whole
  /-- Strings once each, in increasing order. -/
  | texts
  /-- A numeral of 32 bits becomes a number. -/
  | bound
  /-- A number or else a name; a numeral for a name is a number, and there may be neither. -/
  | port
  /-- Members, each with what stands for it where it is missing or null. -/
  | object (rows : List (String × Option Json × Excerpt))
  /-- An array of objects with these members. -/
  | objects (rows : List (String × Option Json × Excerpt))

namespace Excerpt

def sorted (v : Json) : Json :=
  .arr (((v.items?.getD []).filterMap Json.asString?).dedup.mergeSort.map .str)

def counted : Json → Json
  | .str s => match Text.int32? s with
    | some i => .int i.toInt
    | none => .str s
  | v => v

/-- The port of a service, with its number or its name only. -/
def portOf (v : Json) : Option Json :=
  match v.present? "number", v.present? "name" with
  | some number, _ => some (.obj [("number", number)])
  | none, some (.str s) => match Text.int32? s with
    | some i => some (.obj [("number", .int i.toInt)])
    | none => some (.obj [("name", .str s)])
  | none, _ => none

mutual

def apply : Excerpt → Json → Option Json
  | whole, v => some v
  | texts, v => some (sorted v)
  | bound, v => some (counted v)
  | port, v => portOf v
  | object rows, v => some (.obj (members rows v))
  | objects rows, v => v.items?.map (fun items => .arr (items.map (fun x => .obj (members rows x))))

def members : List (String × Option Json × Excerpt) → Json → List (String × Json)
  | [], _ => []
  | (key, blank, e) :: rest, v =>
    Entries.insert? key (((v.present? key).bind e.apply).or blank) (members rest v)

end

variable (rows : List (String × Option Json × Excerpt)) (v : Json)

theorem apply_object : (object rows).apply v = some (.obj (members rows v)) := rfl

theorem members_nil : members [] v = [] := rfl

theorem members_cons (key : String) (blank : Option Json) (e : Excerpt) :
    members ((key, blank, e) :: rows) v =
      Entries.insert? key (((v.present? key).bind e.apply).or blank) (members rows v) := rfl

end Excerpt

namespace Schema

/-- What stands in the document for a value that is missing or null. -/
def Presence.blankSent (s : Shape) : Presence → Option Json
  | .required | .defaulted _ => some (s.encode (s.configured s.blank))
  | .optional | .expected | .reported | .internal => none

mutual

def Shape.excerpt : Shape → Excerpt
  | .leaf .textSet => .texts
  | .leaf .intOrText => .bound
  | .leaf _ => .whole
  | .block fields => .object fields.excerpt
  | .blocks fields => .objects fields.excerpt
  | .backend => .object [("service", none,
      .object [("name", some (.str ""), .whole), ("port", none, .port)])]

def Fields.excerpt : Fields → List (String × Option Json × Excerpt)
  | .nil => []
  | .typed apiVersion kind rest =>
    ("apiVersion", some (.str apiVersion), .whole) :: ("kind", some (.str kind), .whole) ::
      rest.excerpt
  | .cons field shape rest =>
    if field.presence.isKept then
      (field.member, field.presence.blankSent shape, shape.excerpt) :: rest.excerpt
    else rest.excerpt

end

namespace Leaf

theorem eq_int_of_asInt32? {v : Json} {i : Int32} (h : v.asInt32? = some i) : v = .int i.toInt := by
  obtain ⟨j, hj, h⟩ := Option.bind_eq_some_iff.1 h
  split at h
  · rename_i hrange
    cases h
    rw [Text.toInt_ofInt_of_bounds hrange]
    exact Json.asInt?_eq_some.1 hj
  · cases h

theorem eq_int_of_asInt64? {v : Json} {i : Int} (h : v.asInt64? = some i) :
    v = .int (Int64.ofInt i).toInt := by
  obtain ⟨hv, hleast, hgreatest⟩ := Json.asInt64?_eq_some.1 h
  rw [Int64.toInt_ofInt_of_le hleast (Int.lt_add_one_of_le hgreatest)]
  exact hv

theorem eq_str_of_asString? {v : Json} {s : String} (h : v.asString? = some s) : v = .str s := by
  cases v with
  | str t => exact congrArg Json.str (Option.some.inj h)
  | _ => cases h

theorem eq_arr_of_decodeTexts {v : Json} {texts : List String} (h : decodeTexts v = some texts) :
    v = .arr (texts.map .str) := by
  obtain ⟨items, hitems, htexts⟩ := Option.bind_eq_some_iff.1 h
  cases v with
  | arr xs =>
    cases hitems
    have hsame := Outcome.map_eq_of_mapM (g := Json.str) (k := id) htexts
      fun x _ s hs => (eq_str_of_asString? hs).symm
    rw [hsame, List.map_id]
  | _ => cases hitems

/-- A leaf has one document only. -/
theorem encode_of_decode {l : Leaf} {v : Json} (hv : v.WellFormed) {x : l.Value}
    (h : l.decode v = some x) : l.encode x = v := by
  cases l with
  | text => exact (eq_str_of_asString? h).symm
  | int32 => exact (eq_int_of_asInt32? h).symm
  | int64 =>
    obtain ⟨i, hi, rfl⟩ := Option.map_eq_some_iff.1 h
    exact (eq_int_of_asInt64? hi).symm
  | flag =>
    cases v with
    | bool b => exact congrArg Json.bool (Option.some.inj h).symm
    | _ => cases h
  | texts | textSet => exact (eq_arr_of_decodeTexts h).symm
  | textMap =>
    obtain ⟨texts, htexts, rfl⟩ := Option.map_eq_some_iff.1 h
    obtain ⟨members, hmembers, htexts⟩ := Option.bind_eq_some_iff.1 htexts
    obtain rfl := Json.members?_eq_some.1 hmembers
    obtain rfl := eq_texts_of_decodeEntries htexts
    have hsorted : Entries.Sorted texts := Entries.sorted_of_sorted_map hv.1
    exact congrArg (Json.obj ∘ Entries.map .str) (Entries.ofList_of_sorted hsorted)
  | intOrText =>
    cases v with
    | str s =>
      cases h
      rfl
    | num n =>
      change (Json.num n).asInt32?.map IntOrText.int = some x at h
      obtain ⟨i, hi, rfl⟩ := Option.map_eq_some_iff.1 h
      exact (eq_int_of_asInt32? hi).symm
    | _ => cases h

end Leaf

/-- A member that is read is missing or null, or its value is read. -/
theorem present?_of_readMember {α : Type} {members : List (String × Json)} {key : String}
    {read : Json → Option α} {found : Option α}
    (h : ((Entries.get? members key).getD .null).readUnlessNull read = some found)
    (hv : (Json.obj members).WellFormed) :
    ((Json.obj members).present? key = none ∧ found = none) ∨
      ∃ v x, (Json.obj members).present? key = some v ∧ v.WellFormed ∧ read v = some x ∧
        found = some x := by
  change ((Entries.get? members key).filter (!·.isNull) = none ∧ found = none) ∨
    ∃ v x, (Entries.get? members key).filter (!·.isNull) = some v ∧ v.WellFormed ∧
      read v = some x ∧ found = some x
  cases hget : Entries.get? members key with
  | none =>
    rw [hget] at h
    cases h
    exact Or.inl ⟨rfl, rfl⟩
  | some v =>
    rw [hget, Option.getD_some, Json.readUnlessNull] at h
    have hwell : v.WellFormed := Json.membersWellFormed_iff.1 hv.2 _ (Entries.mem_of_get? hget)
    cases hnull : v.isNull with
    | true =>
      rw [if_pos hnull] at h
      cases h
      exact Or.inl ⟨by simp [hnull], rfl⟩
    | false =>
      rw [hnull, if_neg Bool.false_ne_true] at h
      obtain ⟨x, hx, rfl⟩ := Option.map_eq_some_iff.1 h
      exact Or.inr ⟨v, x, by simp [hnull], hwell, hx, rfl⟩

theorem Leaf.apply_excerpt {l : Leaf} {v : Json} (hv : v.WellFormed) {x : l.Value}
    (h : l.decode v = some x) :
    (Shape.leaf l).excerpt.apply v = some (l.encode (l.configured x)) := by
  have hsame := encode_of_decode hv h
  subst hsame
  cases l with
  | textSet =>
    have hstrings : (x.map Json.str).filterMap Json.asString? = x := by
      rw [List.filterMap_map]
      exact List.filterMap_some
    change some (Json.arr (((x.map Json.str).filterMap Json.asString?).dedup.mergeSort.map .str)) =
      some (.arr ((Tree.sortedItems x).map .str))
    rw [hstrings, Tree.sortedItems_eq]
  | intOrText =>
    cases x with
    | int i => rfl
    | text s =>
      change some (Excerpt.counted (.str s)) = some (encode .intOrText (IntOrText.ofText s))
      cases hs : Text.int32? s <;> simp [Excerpt.counted, IntOrText.ofText, hs, encode]
  | _ => rfl

theorem ServicePort.portOf_of_decode {v : Json} (hv : v.WellFormed) {p : ServicePort}
    (h : decode v = some p) : Excerpt.portOf v = p.configured?.map encode := by
  obtain ⟨members, rfl, hnumber, hname⟩ := decode_iff.1 h
  obtain ⟨number?, name?⟩ := p
  unfold Excerpt.portOf configured?
  rcases present?_of_readMember hnumber hv with ⟨hn, rfl⟩ | ⟨n, i, hn, -, hi, rfl⟩
  · rcases present?_of_readMember hname hv with ⟨hs, rfl⟩ | ⟨s, text, hs, -, htext, rfl⟩
    · rw [hn, hs]
      rfl
    · obtain rfl := Leaf.eq_str_of_asString? htext
      rw [hn, hs]
      cases hint : Text.int32? text <;> simp [hint, ofText, encode, Entries.insert?, Entries.insert]
  · obtain rfl := Leaf.eq_int_of_asInt32? hi
    rw [hn]
    rfl

theorem Service.apply_excerpt {v : Json} (hv : v.WellFormed) {s : Service}
    (h : decode v = some s) :
    (Excerpt.object [("name", some (.str ""), .whole), ("port", none, .port)]).apply v =
      some s.configured.encode := by
  obtain ⟨members, name?, rfl, hname, heq, hport⟩ := decode_iff.1 h
  obtain ⟨name, port?⟩ := s
  have hfirst : (((Json.obj members).present? "name").bind Excerpt.whole.apply).or
      (some (.str "")) = some (.str name) := by
    obtain rfl : name = name?.getD "" := heq
    rcases present?_of_readMember hname hv with ⟨hn, rfl⟩ | ⟨n, text, hn, -, htext, rfl⟩
    · rw [hn]
      rfl
    · obtain rfl := Leaf.eq_str_of_asString? htext
      rw [hn]
      rfl
  have hrest : ((Json.obj members).present? "port").bind Excerpt.port.apply =
      (port?.bind ServicePort.configured?).map ServicePort.encode := by
    rcases present?_of_readMember hport hv with ⟨hp, hnone⟩ | ⟨p, port, hp, hwell, hread, hsome⟩
    · obtain rfl : port? = none := hnone
      rw [hp]
      rfl
    · obtain rfl : port? = some port := hsome
      rw [hp]
      exact ServicePort.portOf_of_decode hwell hread
  rw [Excerpt.apply_object, Excerpt.members_cons, Excerpt.members_cons, Excerpt.members_nil, hfirst,
    hrest, Option.or_none]
  rfl

theorem Backend.apply_excerpt {v : Json} (hv : v.WellFormed) {b : Backend}
    (h : decode v = some b) :
    Shape.backend.excerpt.apply v = some b.configured.encode := by
  obtain ⟨members, rfl, hservice⟩ := decode_iff.1 h
  obtain ⟨service?⟩ := b
  rw [Shape.excerpt, Excerpt.apply_object, Excerpt.members_cons, Excerpt.members_nil,
    Option.or_none]
  rcases present?_of_readMember hservice hv with ⟨hs, hnone⟩ | ⟨s, x, hs, hwell, hread, hsome⟩
  · obtain rfl : service? = none := hnone
    rw [hs]
    rfl
  · obtain rfl : service? = some x := hsome
    rw [hs, Option.bind_some, Service.apply_excerpt hwell hread]
    rfl

theorem Presence.complete_configured {p : Presence} {α : Type} {P : α → Prop} {f : α → α}
    (h : ∀ x, P (f x) ↔ P x) (v : p.Held α) : p.Complete P (p.configured f v) ↔ p.Complete P v := by
  cases p with
  | required | defaulted => exact h v
  | optional | expected => cases v <;> simp [Complete, configured, h]
  | reported | internal => exact Iff.rfl

mutual

/-- What is configured of a value demands the same as the value. -/
theorem Shape.complete_configured : (s : Shape) → (v : s.Value) →
    (s.Complete (s.configured v) ↔ s.Complete v)
  | .leaf _, _ => Iff.rfl
  | .block fields, v => fields.complete_configured v
  | .blocks fields, items => by
    simp only [Shape.Complete, Shape.configured, List.forall_mem_map, fields.complete_configured]
  | .backend, b => by
    simp only [Shape.Complete, Shape.configured, Backend.configured, Option.isSome_map]

theorem Fields.complete_configured : (fields : Fields) → (v : fields.Value) →
    (fields.Complete (fields.configured v) ↔ fields.Complete v)
  | .nil, _ => Iff.rfl
  | .typed _ _ rest, v => rest.complete_configured v
  | .cons _ shape rest, (v, vs) =>
    and_congr (Presence.complete_configured shape.complete_configured v)
      (rest.complete_configured vs)

end

/-- What a kept presence sends of a member that was read. -/
theorem Presence.sent_configured {p : Presence} (hkept : p.isKept) (s : Shape)
    (found : Option s.Value) :
    (p.sent (p.configured s.configured (p.received found s.blank))).map s.encode =
      (found.map (fun x => s.encode (s.configured x))).or (p.blankSent s) := by
  cases p with
  | reported | internal => cases hkept
  | _ => cases found <;> rfl

theorem present?_of_namesType {members : List (String × Json)} {key name : String}
    (h : namesType members key name = true) :
    (((Json.obj members).present? key).bind Excerpt.whole.apply).or (some (.str name)) =
      some (.str name) := by
  unfold namesType at h
  change (((Entries.get? members key).filter (!·.isNull)).bind some).or _ = _
  cases hget : Entries.get? members key with
  | none => rfl
  | some v =>
    rw [hget] at h
    obtain rfl := Leaf.eq_str_of_asString? (eq_of_beq h)
    rfl

mutual

/-- A document that can be read has the document of what is configured of its value as excerpt. -/
theorem Shape.apply_excerpt : (s : Shape) → {v : Json} → v.WellFormed → {x : s.Value} →
    s.decode v = some x → s.excerpt.apply v = some (s.encode (s.configured x))
  | .leaf l, v, hv, x, h => Leaf.apply_excerpt hv h
  | .block fields, v, hv, x, h => by
    obtain ⟨members, hmembers, hx⟩ := Option.bind_eq_some_iff.1 h
    obtain rfl := Json.members?_eq_some.1 hmembers
    exact congrArg (some ∘ Json.obj) (fields.members_excerpt hv hx)
  | .blocks fields, v, hv, xs, h => by
    obtain ⟨items, hitems, hxs⟩ := Option.bind_eq_some_iff.1 h
    cases v with
    | arr given =>
      obtain rfl : given = items := Option.some.inj hitems
      have heach : ∀ x ∈ given, ∀ y, x.members?.bind fields.decode = some y →
          Json.obj (fields.encode (fields.configured y)) =
            .obj (Excerpt.members fields.excerpt x) := by
        intro x hx y hy
        obtain ⟨members, hmembers, hy⟩ := Option.bind_eq_some_iff.1 hy
        obtain rfl := Json.members?_eq_some.1 hmembers
        exact congrArg Json.obj
          (fields.members_excerpt (Json.allWellFormed_iff.1 hv _ hx) hy).symm
      have hsame := Outcome.map_eq_of_mapM hxs heach
      change some (Json.arr (given.map fun x => .obj (Excerpt.members fields.excerpt x))) =
        some (.arr ((xs.map fields.configured).map fun v => .obj (fields.encode v)))
      rw [List.map_map, ← hsame]
      rfl
    | _ => cases hitems
  | .backend, v, hv, b, h => Backend.apply_excerpt hv h

theorem Fields.members_excerpt : (fields : Fields) → {members : List (String × Json)} →
    (Json.obj members).WellFormed → {x : fields.Value} → fields.decode members = some x →
    Excerpt.members fields.excerpt (.obj members) = fields.encode (fields.configured x)
  | .nil, _, _, _, _ => rfl
  | .typed apiVersion kind rest, members, hv, x, h => by
    obtain ⟨hnames, hx⟩ := Fields.decode_typed_iff.1 h
    obtain ⟨hversion, hkind⟩ := Bool.and_eq_true_iff.1 hnames
    rw [Fields.excerpt, Excerpt.members_cons, Excerpt.members_cons,
      present?_of_namesType hversion, present?_of_namesType hkind, rest.members_excerpt hv hx]
    rfl
  | .cons field shape rest, members, hv, x, h => by
    obtain ⟨found, vs, hfound, hvs, rfl⟩ := Fields.decode_cons_iff.1 h
    rw [Fields.excerpt, Fields.configured, Fields.encode_cons]
    cases hkept : field.presence.isKept with
    | true =>
      have hvalue : ((Json.obj members).present? field.member).bind shape.excerpt.apply =
          found.map (fun x => shape.encode (shape.configured x)) := by
        rcases present?_of_readMember hfound hv with ⟨hp, rfl⟩ | ⟨u, x, hp, hwell, hx, rfl⟩
        · rw [hp]
          rfl
        · rw [hp, Option.bind_some, shape.apply_excerpt hwell hx]
          rfl
      rw [if_pos rfl, Excerpt.members_cons, hvalue, Presence.sent_configured hkept,
        rest.members_excerpt hv hvs]
    | false =>
      have hnone := Place.written_of_not_isKept hkept (s := shape)
        (field.presence.received found shape.blank)
      rw [Place.written] at hnone
      rw [if_neg Bool.false_ne_true, hnone, rest.members_excerpt hv hvs]
      rfl

end

end Schema

end DesiredState
