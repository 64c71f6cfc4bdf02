import DesiredState.Json.Containment
import DesiredState.Proofs.Json.Integral
import DesiredState.Proofs.Json.WellFormed

/-!
Containment member by member and element by element.
Every document is contained in each equal one, itself among them, since its
objects name each key once, and containment is transitive; documents that are
contained in each other are equal. What a document has at a path is contained in
what a document that contains it has there.
-/
namespace DesiredState.Json

theorem membersContainedIn_iff {desired previous : List (String × Json)} :
    membersContainedIn desired previous = true ↔
      ∀ e ∈ desired, ∃ v, Entries.get? previous e.1 = some v ∧ e.2.containedIn v = true := by
  induction desired with
  | nil => simp [membersContainedIn]
  | cons e rest ih =>
    obtain ⟨k, d⟩ := e
    rw [membersContainedIn, Bool.and_eq_true, ih, List.forall_mem_cons]
    cases Entries.get? previous k <;> simp

/-- Equal members have equal keys. -/
theorem get?_of_sameMembers {ds ps : List (String × Json)} (hsorted : Entries.Sorted ds)
    (h : sameMembers ds ps = true) {e : String × Json} (he : e ∈ ds) :
    ∃ v, Entries.get? ps e.1 = some v ∧ e.2.same v = true := by
  induction ds generalizing ps with
  | nil => cases he
  | cons first rest ih =>
    obtain ⟨k, d⟩ := first
    cases ps with
    | nil => cases h
    | cons other others =>
      obtain ⟨l, p⟩ := other
      simp only [sameMembers, Bool.and_eq_true, beq_iff_eq] at h
      obtain ⟨rfl, hfirst, hrest⟩ := h
      rcases List.mem_cons.1 he with rfl | he
      · exact ⟨p, by rw [Entries.get?_cons, if_pos rfl], hfirst⟩
      · rw [Entries.get?_cons, if_neg (hsorted.ne_of_mem he)]
        exact ih hsorted.tail hrest he

/-- Neither an array nor an object. -/
def isScalar : Json → Bool
  | arr _ | obj _ => false
  | null | bool _ | num _ | str _ => true

theorem containedIn_of_isScalar {d : Json} (h : d.isScalar) (v : Json) :
    d.containedIn v = d.same v := by
  cases d with
  | arr _ | obj _ => cases h
  | null | bool _ | num _ | str _ =>
    rw [containedIn]
    · rfl
    all_goals simp

theorem isScalar_of_same {d v : Json} (h : d.isScalar) (hsame : d.same v = true) : v.isScalar := by
  cases v with
  | arr _ | obj _ => cases d <;> simp_all [isScalar, same]
  | null | bool _ | num _ | str _ => rfl

mutual

/-- A document is contained in each equal one. -/
theorem containedIn_of_same : (d : Json) → d.WellFormed → (v : Json) → d.same v = true →
    d.containedIn v = true
  | .null, _, v, h | .bool _, _, v, h | .num _, _, v, h | .str _, _, v, h => by
    rw [containedIn_of_isScalar rfl]
    exact h
  | .arr items, hd, v, h => by
    cases v with
    | arr others => exact itemsContainedIn_of_same items hd others h
    | _ => cases h
  | .obj members, hd, v, h => by
    cases v with
    | obj others =>
      rw [containedIn, membersContainedIn_iff]
      intro e he
      obtain ⟨w, hw, hsame⟩ := get?_of_sameMembers hd.1 h he
      exact ⟨w, hw, memberContainedIn_of_same members hd.2 e he w hsame⟩
    | _ => cases h

theorem itemsContainedIn_of_same : (ds : List Json) → AllWellFormed ds → (ps : List Json) →
    sameItems ds ps = true → itemsContainedIn ds ps = true
  | [], _, [], _ => rfl
  | d :: ds, hd, p :: ps, h => by
    rw [sameItems, Bool.and_eq_true] at h
    rw [itemsContainedIn, containedIn_of_same d hd.1 p h.1, itemsContainedIn_of_same ds hd.2 ps h.2]
    rfl

theorem memberContainedIn_of_same : (members : List (String × Json)) → MembersWellFormed members →
    ∀ e ∈ members, ∀ v, e.2.same v = true → e.2.containedIn v = true
  | [], _ => fun e he => absurd he List.not_mem_nil
  | (_, d) :: rest, hd => by
    intro e he v hsame
    rcases List.mem_cons.1 he with rfl | he
    · exact containedIn_of_same d hd.1 v hsame
    · exact memberContainedIn_of_same rest hd.2 e he v hsame

end

theorem containedIn_refl (v : Json) (h : v.WellFormed) : v.containedIn v = true :=
  containedIn_of_same v h v (same_refl v)

mutual

theorem containedIn_trans : (d : Json) → {v w : Json} → d.containedIn v = true →
    v.containedIn w = true → d.containedIn w = true
  | .null, v, w, h, h' | .bool _, v, w, h, h' | .num _, v, w, h, h' | .str _, v, w, h, h' => by
    rw [containedIn_of_isScalar rfl] at h ⊢
    rw [containedIn_of_isScalar (isScalar_of_same rfl h)] at h'
    exact same_trans h h'
  | .arr ds, v, w, h, h' => by
    cases v with
    | arr vs =>
      cases w with
      | arr ws => exact itemsContainedIn_trans ds h h'
      | _ => simp [containedIn] at h'
    | _ => simp [containedIn] at h
  | .obj ds, v, w, h, h' => by
    cases v with
    | obj vs =>
      cases w with
      | obj ws =>
        rw [containedIn, membersContainedIn_iff] at h h' ⊢
        intro e he
        obtain ⟨v, hv, hev⟩ := h e he
        obtain ⟨w, hw, hvw⟩ := h' _ (Entries.mem_of_get? hv)
        exact ⟨w, hw, memberContainedIn_trans ds e he hev hvw⟩
      | _ => simp [containedIn] at h'
    | _ => simp [containedIn] at h

theorem itemsContainedIn_trans : (ds : List Json) → {vs ws : List Json} →
    itemsContainedIn ds vs = true → itemsContainedIn vs ws = true → itemsContainedIn ds ws = true
  | [], [], [], _, _ => rfl
  | d :: ds, v :: vs, w :: ws, h, h' => by
    rw [itemsContainedIn, Bool.and_eq_true] at h h'
    rw [itemsContainedIn, containedIn_trans d h.1 h'.1, itemsContainedIn_trans ds h.2 h'.2]
    rfl

theorem memberContainedIn_trans : (ds : List (String × Json)) → ∀ e ∈ ds, ∀ {v w : Json},
    e.2.containedIn v = true → v.containedIn w = true → e.2.containedIn w = true
  | [], _, he, _, _, _, _ => absurd he List.not_mem_nil
  | (_, d) :: rest, e, he, v, w, h, h' => by
    rcases List.mem_cons.1 he with rfl | he
    · exact containedIn_trans d h h'
    · exact memberContainedIn_trans rest e he h h'

end

/-- Objects are equal if each has the keys of the other, with equal values. -/
theorem sameMembers_of_get? {ds ps : List (String × Json)} (hd : Entries.Sorted ds)
    (hp : Entries.Sorted ps)
    (h : ∀ e ∈ ds, ∃ v, Entries.get? ps e.1 = some v ∧ e.2.same v = true)
    (hkeys : ∀ e ∈ ps, (Entries.get? ds e.1).isSome) : sameMembers ds ps = true := by
  induction ds generalizing ps with
  | nil =>
    cases ps with
    | nil => rfl
    | cons e rest => simpa using hkeys e List.mem_cons_self
  | cons e rest ih =>
    obtain ⟨k, d⟩ := e
    obtain ⟨v, hv, hsame⟩ := h (k, d) List.mem_cons_self
    cases ps with
    | nil => simp at hv
    | cons f others =>
      obtain ⟨l, p⟩ := f
      obtain rfl : k = l := hd.head_eq hp (by rw [hv]; rfl) (hkeys (l, p) List.mem_cons_self)
      obtain rfl : p = v := by simpa [Entries.get?_cons] using hv
      have hrest : sameMembers rest others = true := by
        refine ih hd.tail hp.tail (fun e he => ?_) fun e he => ?_
        · simpa [Entries.get?_cons, hd.ne_of_mem he] using h e (List.mem_cons_of_mem _ he)
        · simpa [Entries.get?_cons, hp.ne_of_mem he] using hkeys e (List.mem_cons_of_mem _ he)
      simp [sameMembers, hsame, hrest]

mutual

/-- Documents that are contained in each other are equal. -/
theorem same_of_containedIn : (d : Json) → d.WellFormed → (v : Json) → v.WellFormed →
    d.containedIn v = true → v.containedIn d = true → d.same v = true
  | .null, _, v, _, h, _ | .bool _, _, v, _, h, _ | .num _, _, v, _, h, _
  | .str _, _, v, _, h, _ => by
    rw [containedIn_of_isScalar rfl] at h
    exact h
  | .arr ds, hd, v, hv, h, h' => by
    cases v with
    | arr vs => exact sameItems_of_containedIn ds hd vs hv h h'
    | _ => simp [containedIn] at h
  | .obj ds, hd, v, hv, h, h' => by
    cases v with
    | obj vs =>
      rw [containedIn, membersContainedIn_iff] at h h'
      refine sameMembers_of_get? hd.1 hv.1 (fun e he => ?_) fun e he => ?_
      · obtain ⟨v, hget, hev⟩ := h e he
        -- What the other object has under the key is contained in what was started from.
        obtain ⟨w, hback, hve⟩ := h' _ (Entries.mem_of_get? hget)
        obtain rfl : e.2 = w := Option.some.inj ((Entries.get?_of_mem hd.1 he).symm.trans hback)
        have hwell : v.WellFormed := membersWellFormed_iff.1 hv.2 _ (Entries.mem_of_get? hget)
        exact ⟨v, hget, memberSame_of_containedIn ds hd.2 e he v hwell hev hve⟩
      · obtain ⟨w, hw, -⟩ := h' e he
        rw [hw]
        rfl
    | _ => simp [containedIn] at h

theorem sameItems_of_containedIn : (ds : List Json) → AllWellFormed ds → (vs : List Json) →
    AllWellFormed vs → itemsContainedIn ds vs = true → itemsContainedIn vs ds = true →
    sameItems ds vs = true
  | [], _, [], _, _, _ => rfl
  | d :: ds, hd, v :: vs, hv, h, h' => by
    rw [itemsContainedIn, Bool.and_eq_true] at h h'
    rw [sameItems, same_of_containedIn d hd.1 v hv.1 h.1 h'.1,
      sameItems_of_containedIn ds hd.2 vs hv.2 h.2 h'.2]
    rfl

theorem memberSame_of_containedIn : (ds : List (String × Json)) → MembersWellFormed ds →
    ∀ e ∈ ds, ∀ v : Json, v.WellFormed → e.2.containedIn v = true → v.containedIn e.2 = true →
      e.2.same v = true
  | [], _ => fun e he => absurd he List.not_mem_nil
  | (_, d) :: rest, hd => by
    intro e he v hv h h'
    rcases List.mem_cons.1 he with rfl | he
    · exact same_of_containedIn d hd.1 v hv h h'
    · exact memberSame_of_containedIn rest hd.2 e he v hv h h'

end

/-- Containment is a partial order: every document is contained in itself, containment is
transitive, and it goes both ways exactly between equal documents. Documents that are equal differ
in the signs of zeros at most, so they are the same where one has integers only. -/
theorem containedIn_partialOrder :
    (∀ a : Json, a.WellFormed → a.containedIn a = true) ∧
    (∀ a b c : Json, a.containedIn b = true → b.containedIn c = true → a.containedIn c = true) ∧
    ∀ a b : Json, a.WellFormed → b.WellFormed →
      (a.containedIn b = true ∧ b.containedIn a = true ↔ (a == b) = true) ∧
      (a.Integral → a.containedIn b = true → b.containedIn a = true → a = b) := by
  refine ⟨containedIn_refl, fun a b c => a.containedIn_trans, fun a b ha hb => ⟨⟨?_, ?_⟩, ?_⟩⟩
  · rintro ⟨h, h'⟩
    exact same_of_containedIn a ha b hb h h'
  · intro h
    exact ⟨containedIn_of_same a ha b h, containedIn_of_same b hb a (same_symm h)⟩
  · intro hintegral h h'
    exact eq_of_same hintegral (same_of_containedIn a ha b hb h h')

/-- A list of one container with the limit and the other members that are given. -/
def limited (limit : Binary64) (others : List (String × Json)) : Json :=
  .arr [.obj (("limits", .obj [("cpu", .num (.real limit))]) :: others)]

/-- Limits of zero with either sign are contained in each other and equal, and both are contained in
what has a name in addition. -/
theorem containedIn_partialOrder_zeros :
    (limited ⟨false, 0, 0⟩ []).WellFormed ∧ (limited ⟨true, 0, 0⟩ []).WellFormed ∧
    (limited ⟨false, 0, 0⟩ []).containedIn (limited ⟨false, 0, 0⟩ []) = true ∧
    (limited ⟨false, 0, 0⟩ []).containedIn (limited ⟨true, 0, 0⟩ []) = true ∧
    (limited ⟨true, 0, 0⟩ []).containedIn (limited ⟨false, 0, 0⟩ []) = true ∧
    (limited ⟨false, 0, 0⟩ [] == limited ⟨true, 0, 0⟩ []) = true ∧
    (limited ⟨true, 0, 0⟩ []).containedIn (limited ⟨true, 0, 0⟩ [("name", .str "web")]) = true ∧
    (limited ⟨false, 0, 0⟩ []).containedIn (limited ⟨true, 0, 0⟩ [("name", .str "web")]) =
      true := by
  obtain ⟨hrefl, htrans, hboth⟩ := containedIn_partialOrder
  have hplus : (limited ⟨false, 0, 0⟩ []).WellFormed := by decide +kernel
  have hminus : (limited ⟨true, 0, 0⟩ []).WellFormed := by decide +kernel
  have h : (limited ⟨false, 0, 0⟩ []).containedIn (limited ⟨true, 0, 0⟩ []) = true := by
    decide +kernel
  have h' : (limited ⟨true, 0, 0⟩ []).containedIn (limited ⟨false, 0, 0⟩ []) = true := by
    decide +kernel
  have hnamed : (limited ⟨true, 0, 0⟩ []).containedIn
      (limited ⟨true, 0, 0⟩ [("name", .str "web")]) = true := by decide +kernel
  exact ⟨hplus, hminus, hrefl _ hplus, h, h', (hboth _ _ hplus hminus).1.1 ⟨h, h'⟩, hnamed,
    htrans _ _ _ h hnamed⟩

theorem containedIn_getElem? {ds ps : List Json} (h : itemsContainedIn ds ps = true) {i : Nat}
    {d : Json} (hd : ds[i]? = some d) : ∃ p, ps[i]? = some p ∧ d.containedIn p = true := by
  induction ds generalizing ps i with
  | nil => simp at hd
  | cons first rest ih =>
    cases ps with
    | nil => simp [itemsContainedIn] at h
    | cons p ps =>
      rw [itemsContainedIn, Bool.and_eq_true] at h
      cases i with
      | zero =>
        cases hd
        exact ⟨p, rfl, h.1⟩
      | succ i => exact ih h.2 hd

theorem eq_obj_of_containedIn {members : List (String × Json)} {v : Json}
    (h : (obj members).containedIn v = true) :
    ∃ others, v = obj others ∧ membersContainedIn members others = true := by
  cases v with
  | obj others => exact ⟨others, rfl, h⟩
  | _ => simp [containedIn] at h

theorem isNull_of_containedIn {d v : Json} (h : d.containedIn v = true) (hd : d.isNull = false) :
    v.isNull = false := by
  cases v with
  | null =>
    cases d with
    | null => simp [isNull] at hd
    | obj _ | arr _ => simp [containedIn] at h
    | bool _ | num _ | str _ =>
      rw [containedIn] at h
      · exact absurd h Bool.false_ne_true
      all_goals simp
  | _ => rfl

theorem containedIn_step? {d v : Json} (h : d.containedIn v = true) {token : String} {x : Json}
    (hx : d.step? token = some x) : ∃ y, v.step? token = some y ∧ x.containedIn y = true := by
  cases d with
  | obj members =>
    obtain ⟨others, rfl, hmembers⟩ := eq_obj_of_containedIn h
    exact membersContainedIn_iff.1 hmembers _ (Entries.mem_of_get? hx)
  | arr items =>
    obtain ⟨i, hi, hitem⟩ := Option.bind_eq_some_iff.1 hx
    cases v with
    | arr others =>
      obtain ⟨y, hy, hcontained⟩ := containedIn_getElem? (by simpa [containedIn] using h) hitem
      exact ⟨y, by simp [step?, hi, hy], hcontained⟩
    | _ => simp [containedIn] at h
  | _ => simp [step?] at hx

theorem containedIn_resolve? {d v : Json} (h : d.containedIn v = true) {path : List String}
    {x : Json} (hx : resolve? path d = some x) :
    ∃ y, resolve? path v = some y ∧ x.containedIn y = true := by
  induction path generalizing d v with
  | nil =>
    cases hx
    exact ⟨v, rfl, h⟩
  | cons token rest ih =>
    obtain ⟨c, hc, hrest⟩ := Option.bind_eq_some_iff.1 hx
    obtain ⟨c', hc', hcontained⟩ := containedIn_step? h hc
    obtain ⟨y, hy, hxy⟩ := ih hcontained hrest
    exact ⟨y, by simp [resolve?, hc', hy], hxy⟩

end DesiredState.Json
