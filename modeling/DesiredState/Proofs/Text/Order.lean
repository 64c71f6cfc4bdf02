import DesiredState.Text.Utf8
import Mathlib.Data.String.Basic

/-!
The order of texts.
Strings are compared by their characters. This is the order of their octets as
well: of two different characters the lesser one is written with lesser octets,
whatever follows either of them.
-/
namespace DesiredState.Text.Utf8

theorem ofNat_eq_ofNat {m n : Nat} (hm : m < UInt8.size) (hn : n < UInt8.size) :
    UInt8.ofNat m = UInt8.ofNat n ↔ m = n := by
  rw [← UInt8.toNat_inj, UInt8.toNat_ofNat_of_lt' hm, UInt8.toNat_ofNat_of_lt' hn]

/-- The octets of a lesser character come first, whatever follows. -/
theorem octets_lt {a b : Char} (h : a < b) (as bs : List UInt8) :
    String.utf8EncodeChar a ++ as < String.utf8EncodeChar b ++ bs := by
  have hcode : a.val.toNat < b.val.toNat := h
  have hgreatest : b.val.toNat < 0x110000 := by rcases b.valid with hb | hb <;> omega
  unfold String.utf8EncodeChar
  generalize a.val.toNat = m at hcode
  generalize b.val.toNat = n at hcode hgreatest
  have hm : m / 262144 % 8 = m / 262144 := by omega
  have hn : n / 262144 % 8 = n / 262144 := by omega
  dsimp only
  rw [hm, hn]
  -- A first octet tells how many follow, and grows with their number.
  split_ifs
  all_goals
    simp (disch := (rw [UInt8.size]; omega)) only [List.cons_append, List.nil_append,
      List.cons_lt_cons_iff, UInt8.ofNat_lt_iff_lt, ofNat_eq_ofNat]
    omega

theorem encode_cons (c : Char) (rest : List Char) :
    encode (c :: rest) = String.utf8EncodeChar c ++ encode rest := List.flatMap_cons

theorem encode_lt_encode {a b : List Char} (h : a < b) : encode a < encode b := by
  induction a generalizing b with
  | nil =>
    cases b with
    | nil => exact absurd h (List.not_lt_nil [])
    | cons c rest =>
      rw [encode_cons]
      obtain ⟨octet, more, hoctets⟩ := List.exists_cons_of_ne_nil String.utf8EncodeChar_ne_nil
      rw [hoctets]
      exact List.nil_lt_cons _ _
  | cons c as ih =>
    cases b with
    | nil => exact absurd h (List.not_lt_nil _)
    | cons d bs =>
      rw [encode_cons, encode_cons]
      rcases List.cons_lt_cons_iff.1 h with hlt | ⟨rfl, hrest⟩
      · exact octets_lt hlt _ _
      · exact List.append_left_lt (ih hrest)

/-- Texts are in the order of their octets. -/
theorem lt_iff_encode_lt {s t : String} : s < t ↔ encode s.toList < encode t.toList := by
  refine ⟨fun h => encode_lt_encode (String.lt_iff_toList_lt.1 h), fun h => ?_⟩
  rcases lt_trichotomy s t with hlt | rfl | hgt
  · exact hlt
  · exact absurd h (List.lt_irrefl _)
  · exact absurd (encode_lt_encode (String.lt_iff_toList_lt.1 hgt)) (List.lt_asymm h)

end DesiredState.Text.Utf8
