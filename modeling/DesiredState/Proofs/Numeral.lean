import DesiredState.Json.Pointer
import Mathlib.Data.List.Induction

/-!
Numerals read back.
The decimal text of a number is read as that number. Without a leading zero
no other text of digits is, so an array element has one token only. A word of
32 bits is read from exactly the texts that denote it.
-/
namespace DesiredState.Text

theorem digitValue?_digitChar {d : Nat} (h : d < 10) : digitValue? d.digitChar = some d := by
  have all : ∀ d < 10, digitValue? (Nat.digitChar d) = some d := by decide
  exact all d h

theorem digitChar_of_digitValue? {c : Char} {d : Nat} (h : digitValue? c = some d) :
    d < 10 ∧ d.digitChar = c := by
  simp only [digitValue?] at h
  split at h
  · rename_i hc
    have hlow : 48 ≤ c.toNat := hc.1
    have hhigh : c.toNat ≤ 57 := hc.2
    have hd : c.toNat - 48 = d := by simpa using h
    have hlt : d < 10 := by omega
    have all : ∀ d < 10, Nat.digitChar d = Char.ofNat (48 + d) := by decide
    refine ⟨hlt, ?_⟩
    rw [all d hlt, show 48 + d = c.toNat by omega, Char.ofNat_toNat]
  · simp at h

theorem digitsValue?_of_ne_nil {text : List Char} (h : text ≠ []) :
    digitsValue? text = text.foldlM appendDigit 0 := by
  cases text with
  | nil => exact absurd rfl h
  | cons c rest => rfl

theorem digitsValue?_toDigits (n : Nat) : digitsValue? (Nat.toDigits 10 n) = some n := by
  rw [digitsValue?_of_ne_nil Nat.toDigits_ne_nil]
  induction n using Nat.strongRecOn with
  | ind n ih =>
    by_cases hn : n < 10
    · rw [Nat.toDigits_of_lt_base hn]
      simp [appendDigit, digitValue?_digitChar hn]
    · rw [Nat.toDigits_of_base_le (by omega) (by omega), List.foldlM_append, ih (n / 10) (by omega)]
      simp only [List.foldlM_cons, List.foldlM_nil, appendDigit,
        digitValue?_digitChar (Nat.mod_lt n (by omega))]
      simp
      omega

theorem digitsValue?_repr (n : Nat) : digitsValue? n.repr.toList = some n := by
  rw [Nat.toList_repr]
  exact digitsValue?_toDigits n

theorem isDigit_of_mem_repr {n : Nat} {c : Char} (h : c ∈ n.repr.toList) : c.isDigit := by
  rw [Nat.toList_repr] at h
  exact Nat.isDigit_of_mem_toDigits (by decide) (by decide) h

theorem not_mem_repr {c : Char} (hc : c.isDigit = false) (n : Nat) : c ∉ n.repr.toList := by
  intro h
  have hdigit := isDigit_of_mem_repr h
  simp [hc] at hdigit

/-- The first digit of a numeral of more than one digit is no zero. -/
theorem toDigits_ne_zero_cons (n : Nat) (c : Char) (rest : List Char) :
    Nat.toDigits 10 n ≠ '0' :: c :: rest := by
  induction n using Nat.strongRecOn generalizing c rest with
  | ind n ih =>
    intro heq
    by_cases hn : n < 10
    · rw [Nat.toDigits_of_lt_base hn] at heq
      simp at heq
    · rw [Nat.toDigits_of_base_le (by omega) (by omega)] at heq
      cases hfront : Nat.toDigits 10 (n / 10) with
      | nil => exact Nat.toDigits_ne_nil hfront
      | cons first front =>
        rw [hfront, List.cons_append, List.cons.injEq] at heq
        obtain ⟨rfl, -⟩ := heq
        cases front with
        | nil =>
          have hvalue := digitsValue?_toDigits (n / 10)
          rw [hfront] at hvalue
          have hzero : digitsValue? ['0'] = some 0 := by decide
          rw [hzero] at hvalue
          have : 0 = n / 10 := Option.some.inj hvalue
          omega
        | cons second more => exact ih (n / 10) (by omega) second more hfront

/-- Digits without a leading zero are the decimal text of their value. -/
theorem eq_toDigits_of_digitsValue? {text : List Char} {n : Nat}
    (hzero : ∀ c rest, text ≠ '0' :: c :: rest) (h : digitsValue? text = some n) :
    text = Nat.toDigits 10 n := by
  induction text using List.reverseRecOn generalizing n with
  | nil => simp [digitsValue?] at h
  | append_singleton init c ih =>
    rw [digitsValue?_of_ne_nil (by simp), List.foldlM_append] at h
    simp only [List.foldlM_cons, List.foldlM_nil, Option.bind_eq_bind,
      Option.bind_eq_some_iff] at h
    obtain ⟨m, hm, k, hk, hn⟩ := h
    simp only [appendDigit, Option.map_eq_some_iff] at hk
    obtain ⟨d, hd, rfl⟩ := hk
    obtain ⟨hlt, hc⟩ := digitChar_of_digitValue? hd
    have hvalue : m * 10 + d = n := by simpa using hn
    cases init with
    | nil =>
      have hm0 : m = 0 := by simpa using hm.symm
      subst hm0
      rw [List.nil_append, Nat.toDigits_of_lt_base (by omega),
        show n = d by omega, hc]
    | cons first rest =>
      have hinit : first :: rest = Nat.toDigits 10 m := by
        refine ih (fun c' rest' heq => ?_) ((digitsValue?_of_ne_nil (by simp)).trans hm)
        exact hzero c' (rest' ++ [c]) (by rw [heq]; rfl)
      -- The numeral in front is not zero, for a zero would be a leading one.
      have hpos : m ≠ 0 := by
        intro hm0
        rw [hm0, Nat.toDigits_zero] at hinit
        cases hinit
        exact hzero c [] rfl
      rw [Nat.toDigits_of_base_le (by omega) (by omega : 10 ≤ n), hinit, show n / 10 = m by omega,
        show n % 10 = d by omega, hc]

/-- A text of digits bears no sign. -/
theorem unsigned?_of_digitsValue? {text : List Char} {n : Nat} (h : digitsValue? text = some n) :
    unsigned? text = some n := by
  cases text with
  | nil => simp [digitsValue?] at h
  | cons c rest =>
    have hplus : c ≠ '+' := by
      rintro rfl
      simp [digitsValue?, appendDigit, digitValue?] at h
    simp [unsigned?, hplus, h]

theorem signed?_of_digitsValue? {text : List Char} {n : Nat} (h : digitsValue? text = some n) :
    signed? text = some (n : Int) := by
  cases text with
  | nil => simp [digitsValue?] at h
  | cons c rest =>
    have hminus : c ≠ '-' := by
      rintro rfl
      simp [digitsValue?, appendDigit, digitValue?] at h
    simp [signed?, hminus, unsigned?_of_digitsValue? h]

theorem signed?_intText (i : Int) : signed? (intText i).toList = some i := by
  unfold intText
  split
  · rename_i hneg
    rw [String.toList_append]
    change (digitsValue? i.natAbs.repr.toList).map (fun n => -(n : Int)) = some i
    rw [digitsValue?_repr]
    have habs : -(i.natAbs : Int) = i := by omega
    exact congrArg some habs
  · rename_i hpos
    rw [signed?_of_digitsValue? (digitsValue?_repr i.natAbs)]
    have habs : (i.natAbs : Int) = i := by omega
    exact congrArg some habs

/-- The bounds of 32 signed bits hold of what fits them, and only of that. -/
theorem int32_bounds (i : Int32) :
    Int32.minValue.toInt ≤ i.toInt ∧ i.toInt ≤ Int32.maxValue.toInt :=
  ⟨i.minValue_le_toInt, i.toInt_le⟩

theorem toInt_ofInt_of_bounds {i : Int}
    (h : Int32.minValue.toInt ≤ i ∧ i ≤ Int32.maxValue.toInt) : (Int32.ofInt i).toInt = i :=
  Int32.toInt_ofInt_of_le h.1 (Int.lt_add_one_of_le h.2)

theorem int32?_intText (i : Int32) : int32? (intText i.toInt) = some i := by
  have hrange := int32_bounds i
  rw [int32?, signed?_intText, Option.bind_some, if_pos hrange, Int32.ofInt_toInt]

/-- The value of decimal digits. -/
def decimal (digits : List Char) : Nat := digits.foldl (fun n c => n * 10 + (c.toNat - 48)) 0

/-- A text is an optional sign and decimal digits, at least one, for an integer. -/
def Denotes (s : String) (i : Int) : Prop :=
  ∃ sign digits, s.toList = sign ++ digits ∧ digits ≠ [] ∧ (∀ c ∈ digits, c.isDigit) ∧
    ((sign = [] ∨ sign = ['+']) ∧ i = decimal digits ∨ sign = ['-'] ∧ i = -(decimal digits : Int))

theorem appendDigit_eq_some {n m : Nat} {c : Char} :
    appendDigit n c = some m ↔ c.isDigit ∧ m = n * 10 + (c.toNat - 48) := by
  have hdigit : ('0' ≤ c ∧ c ≤ '9') ↔ c.isDigit = true := by
    rw [Char.isDigit, Bool.and_eq_true, decide_eq_true_iff, decide_eq_true_iff]
    exact Iff.rfl
  unfold appendDigit digitValue?
  by_cases h : '0' ≤ c ∧ c ≤ '9'
  · rw [if_pos h, Option.map_some, Option.some.injEq, eq_comm]
    exact (and_iff_right (hdigit.1 h)).symm
  · rw [if_neg h]
    exact ⟨nofun, fun hm => absurd (hdigit.2 hm.1) h⟩

theorem foldlM_appendDigit {text : List Char} {n m : Nat} :
    text.foldlM appendDigit n = some m ↔ (∀ c ∈ text, c.isDigit) ∧
      m = text.foldl (fun n c => n * 10 + (c.toNat - 48)) n := by
  induction text generalizing n with
  | nil => exact ⟨fun h => ⟨nofun, (Option.some.inj h).symm⟩, fun h => congrArg some h.2.symm⟩
  | cons c rest ih =>
    simp only [List.foldlM_cons, Option.bind_eq_bind, Option.bind_eq_some_iff, appendDigit_eq_some,
      ih, List.forall_mem_cons, List.foldl_cons]
    constructor
    · rintro ⟨k, ⟨hc, rfl⟩, hrest, hm⟩
      exact ⟨⟨hc, hrest⟩, hm⟩
    · rintro ⟨⟨hc, hrest⟩, hm⟩
      exact ⟨_, ⟨hc, rfl⟩, hrest, hm⟩

theorem digitsValue?_eq_some {text : List Char} {n : Nat} :
    digitsValue? text = some n ↔ text ≠ [] ∧ (∀ c ∈ text, c.isDigit) ∧ n = decimal text := by
  cases text with
  | nil => simp [digitsValue?]
  | cons c rest =>
    rw [digitsValue?_of_ne_nil (List.cons_ne_nil c rest), foldlM_appendDigit]
    simp [decimal]

theorem signed?_eq_some {text : String} {i : Int} :
    signed? text.toList = some i ↔ Denotes text i := by
  unfold Denotes
  generalize text.toList = cs
  constructor
  · intro h
    unfold signed? at h
    split at h
    · rename_i rest
      obtain ⟨_, hread, rfl⟩ := Option.map_eq_some_iff.1 h
      obtain ⟨n, hn, heq⟩ := Option.bind_eq_some_iff.1 hread
      cases heq
      obtain ⟨hne, hdigits, rfl⟩ := digitsValue?_eq_some.1 hn
      exact ⟨['-'], rest, rfl, hne, hdigits, Or.inr ⟨rfl, rfl⟩⟩
    · obtain ⟨n, hn, rfl⟩ := Option.map_eq_some_iff.1 h
      unfold unsigned? at hn
      split at hn
      · rename_i rest _
        obtain ⟨hne, hdigits, rfl⟩ := digitsValue?_eq_some.1 hn
        exact ⟨['+'], rest, rfl, hne, hdigits, Or.inl ⟨Or.inr rfl, rfl⟩⟩
      · obtain ⟨hne, hdigits, rfl⟩ := digitsValue?_eq_some.1 hn
        exact ⟨[], cs, rfl, hne, hdigits, Or.inl ⟨Or.inl rfl, rfl⟩⟩
  · rintro ⟨sign, digits, rfl, hne, hdigits, hsign⟩
    have hvalue := digitsValue?_eq_some.2 ⟨hne, hdigits, rfl⟩
    rcases hsign with ⟨rfl | rfl, rfl⟩ | ⟨rfl, rfl⟩
    · rw [List.nil_append, signed?_of_digitsValue? hvalue]
    · simp [signed?, unsigned?, hvalue]
    · simp [signed?, hvalue]

/-- A word of 32 bits is read from exactly the texts that denote its value. -/
theorem int32?_eq_some {text : String} {i : Int32} :
    int32? text = some i ↔ Denotes text i.toInt := by
  rw [← signed?_eq_some, int32?, Option.bind_eq_some_iff]
  constructor
  · rintro ⟨v, hv, h⟩
    split at h
    · rename_i hrange
      cases h
      rw [toInt_ofInt_of_bounds hrange, hv]
    · cases h
  · intro h
    exact ⟨i.toInt, h, by rw [if_pos (int32_bounds i), Int32.ofInt_toInt]⟩

end DesiredState.Text

namespace DesiredState.Pointer

theorem hasLeadingZero_repr (n : Nat) : hasLeadingZero n.repr = false := by
  unfold hasLeadingZero
  rw [Nat.toList_repr]
  split
  · rename_i c rest heq
    exact absurd heq (Text.toDigits_ne_zero_cons n c rest)
  · rfl

theorem index?_repr (n : Nat) : index? n.repr = some n := by
  rw [index?, hasLeadingZero_repr, Text.digitsValue?_repr]
  rfl

theorem eq_repr_of_index? {token : String} {n : Nat} (h : index? token = some n) :
    token = n.repr := by
  unfold index? at h
  split at h
  · simp at h
  · rename_i hzero
    have hchars : token.toList = Nat.toDigits 10 n := by
      refine Text.eq_toDigits_of_digitsValue? (fun c rest heq => ?_) h
      simp [hasLeadingZero, heq] at hzero
    rw [← String.toList_inj, hchars, Nat.toList_repr]

end DesiredState.Pointer
