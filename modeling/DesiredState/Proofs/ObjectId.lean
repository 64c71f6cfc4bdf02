import DesiredState.Error

/-!
Identities and their texts.
The text of an identity says which one it is if every part of it is there and
holds no slash. Decoding accepts exactly the texts of such identities, each
under the scope of its own, and refuses every other text.
-/
namespace DesiredState.ObjectId

/-- A part that can be told from what stands around it. -/
def IsPart (part : String) : Prop := part ≠ "" ∧ '/' ∉ part.toList

instance (part : String) : Decidable (IsPart part) :=
  inferInstanceAs (Decidable (part ≠ "" ∧ '/' ∉ part.toList))

/-- Every part of an identity is there and holds no slash. -/
def Valid (id : ObjectId) : Prop := (∀ ns ∈ id.ns?, IsPart ns) ∧ IsPart id.name

instance (id : ObjectId) : Decidable id.Valid :=
  inferInstanceAs (Decidable ((∀ ns ∈ id.ns?, IsPart ns) ∧ IsPart id.name))

theorem toList_text_namespaced (ns name : String) :
    (text ⟨some ns, name⟩).toList = ns.toList ++ '/' :: name.toList := by
  simp [text]

theorem split_text_namespaced {ns name : String} (hns : IsPart ns) (hname : IsPart name) :
    Text.split '/' (text ⟨some ns, name⟩) = [ns, name] := by
  have hsplit : Text.split '/' (text ⟨some ns, name⟩) = Text.split '/' ns ++ Text.split '/' name :=
    Text.split_append '/' ns name
  rw [hsplit, Text.split_of_not_mem hns.2, Text.split_of_not_mem hname.2, List.singleton_append]

theorem split_text_cluster {name : String} (hname : IsPart name) :
    Text.split '/' (text ⟨none, name⟩) = [name] :=
  Text.split_of_not_mem hname.2

/-- A valid identity is read back from its text. -/
theorem ofText?_of_valid {id : ObjectId} (h : id.Valid) : ofText? id.scope id.text = some id := by
  obtain ⟨ns?, name⟩ := id
  obtain ⟨hns, hname⟩ := h
  cases ns? with
  | none =>
    change ofText? .cluster _ = _
    unfold ofText?
    rw [split_text_cluster hname]
    simp [hname.1]
  | some ns =>
    change ofText? .namespaced _ = _
    unfold ofText?
    rw [split_text_namespaced (hns ns rfl) hname]
    simp [hname.1, (hns ns rfl).1]

theorem isPart_of_mem_split {text part : String} (h : part ∈ Text.split '/' text)
    (hne : part ≠ "") : IsPart part := by
  refine ⟨hne, ?_⟩
  obtain ⟨piece, hpiece, rfl⟩ := List.mem_map.1 h
  rw [String.toList_ofList]
  exact Text.not_mem_of_mem_segments hpiece

/-- What is read from a text is valid and of the scope that was asked for. -/
theorem valid_of_ofText? {scope : Scope} {text : String} {id : ObjectId}
    (h : ofText? scope text = some id) : id.scope = scope ∧ id.Valid := by
  have hpart : ∀ part ∈ Text.split '/' text, part ≠ "" → IsPart part :=
    fun _ => isPart_of_mem_split
  unfold ofText? at h
  split at h
  · rename_i ns name hpieces
    rw [hpieces] at hpart
    split at h
    · cases h
    · rename_i hfull
      cases h
      simp only [Bool.or_eq_true, String.isEmpty_iff, not_or] at hfull
      refine ⟨rfl, ?_, hpart name (by simp) hfull.2⟩
      rintro _ ⟨⟩
      exact hpart ns (by simp) hfull.1
  · rename_i name hpieces
    rw [hpieces] at hpart
    split at h
    · cases h
    · rename_i hfull
      cases h
      exact ⟨rfl, nofun, hpart name (by simp) (by simpa using hfull)⟩
  · cases h

theorem decode_eq_ok {scope : Scope} {text : String} {id : ObjectId} :
    decode scope text = .ok id ↔ ofText? scope text = some id := by
  unfold decode
  cases ofText? scope text <;> simp

theorem text_of_decode {scope : Scope} {text : String} {id : ObjectId}
    (h : decode scope text = .ok id) : id.text = text :=
  text_of_ofText? (decode_eq_ok.1 h)

theorem decode_iff {scope : Scope} {text : String} {id : ObjectId} :
    decode scope text = .ok id ↔ id.scope = scope ∧ id.Valid ∧ id.text = text := by
  constructor
  · intro h
    obtain ⟨hscope, hvalid⟩ := valid_of_ofText? (decode_eq_ok.1 h)
    exact ⟨hscope, hvalid, text_of_decode h⟩
  · rintro ⟨rfl, hvalid, rfl⟩
    exact decode_eq_ok.2 (ofText?_of_valid hvalid)

theorem decode_eq_error {scope : Scope} {text : String} {e : Error} :
    decode scope text = .error e ↔
      ofText? scope text = none ∧ e = .validation (.malformedId text scope) := by
  unfold decode
  cases ofText? scope text <;> simp [eq_comm]

theorem slash_mem_text_iff {id : ObjectId} (h : id.Valid) :
    '/' ∈ id.text.toList ↔ id.scope = .namespaced := by
  obtain ⟨ns?, name⟩ := id
  cases ns? with
  | none => exact iff_of_false h.2.2 nofun
  | some ns => exact iff_of_true (by simp [toList_text_namespaced]) rfl

/-- A text of one scope is not one of the other, where there is a slash more or less. -/
theorem scope_eq_of_text_eq {a b : ObjectId} (ha : a.Valid) (hb : b.Valid)
    (h : a.text = b.text) : a.scope = b.scope := by
  have hslash : a.scope = .namespaced ↔ b.scope = .namespaced := by
    rw [← slash_mem_text_iff ha, ← slash_mem_text_iff hb, h]
  cases ha' : a.scope <;> cases hb' : b.scope <;> simp_all

theorem eq_of_text_eq {a b : ObjectId} (ha : a.Valid) (hb : b.Valid) (h : a.text = b.text) :
    a = b := by
  have hread := ofText?_of_valid hb
  rw [← scope_eq_of_text_eq ha hb h, ← h, ofText?_of_valid ha] at hread
  exact Option.some.inj hread

/-- Decoding a text gives an identity exactly if that is a valid one of the scope with this text. So
each undoes the other, different identities have different texts, and a text has one scope. Every
text of no such identity is refused. -/
theorem decode_exact :
    (∀ scope text id, decode scope text = .ok id ↔
      id.scope = scope ∧ id.Valid ∧ id.text = text) ∧
    (∀ id, id.Valid → decode id.scope id.text = .ok id) ∧
    (∀ scope text id, decode scope text = .ok id → id.text = text) ∧
    (∀ a b : ObjectId, a.Valid → b.Valid → a ≠ b → a.text ≠ b.text) ∧
    (∀ text a b, decode .namespaced text = .ok a → decode .cluster text ≠ .ok b) ∧
    ∀ scope text, (¬ ∃ id : ObjectId, id.scope = scope ∧ id.Valid ∧ id.text = text) →
      decode scope text = .error (.validation (.malformedId text scope)) := by
  refine ⟨fun _ _ _ => decode_iff, fun id hvalid => ?_, fun _ _ _ => text_of_decode,
    fun a b ha hb hne => ?_, fun text a b ha hb => ?_, fun scope text hnone => ?_⟩
  · exact decode_iff.2 ⟨rfl, hvalid, rfl⟩
  · exact fun htext => hne (eq_of_text_eq ha hb htext)
  · obtain ⟨hnamespaced, hvalid, htext⟩ := decode_iff.1 ha
    obtain ⟨hcluster, hvalid', htext'⟩ := decode_iff.1 hb
    have hscope := scope_eq_of_text_eq hvalid hvalid' (htext.trans htext'.symm)
    rw [hnamespaced, hcluster] at hscope
    cases hscope
  · cases hread : decode scope text with
    | ok id => exact absurd ⟨id, decode_iff.1 hread⟩ hnone
    | error e => rw [(decode_eq_error.1 hread).2]

/-- The parts of an identity are read back; a text with a slash too many is refused. -/
theorem decode_exact_web :
    Valid ⟨some "apps", "web"⟩ ∧
    decode .namespaced "apps/web" = .ok ⟨some "apps", "web"⟩ ∧
    decode .cluster "apps/web" = .error (.validation (.malformedId "apps/web" .cluster)) := by
  have hvalid : Valid ⟨some "apps", "web"⟩ := by decide
  obtain ⟨-, hread, -, -, hscope, hrefused⟩ := decode_exact
  have hnamespaced : decode .namespaced "apps/web" = .ok ⟨some "apps", "web"⟩ := hread _ hvalid
  refine ⟨hvalid, hnamespaced, hrefused _ _ ?_⟩
  rintro ⟨b, hb⟩
  exact hscope _ _ _ hnamespaced (decode_iff.2 hb)

end DesiredState.ObjectId
