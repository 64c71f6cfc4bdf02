import DesiredState.Json.Pointer
import DesiredState.Proofs.Numeral

/-!
The texts of pointers.
Escaping replaces the tildes of a key and then its slashes, and reading a token
puts back the slashes and then the tildes. So a token has no slash, no two keys
have one token, and the pointer to a member or to an element has the tokens of
the pointer to what holds it, and one more. It finds that member and no other.
-/
namespace DesiredState

namespace Text

/-- Every `c` of a text is replaced. -/
def replaceChar (c : Char) (replacement text : List Char) : List Char :=
  text.flatMap (fun d => if d = c then replacement else [d])

theorem replaceChar_cons_self (c : Char) (replacement rest : List Char) :
    replaceChar c replacement (c :: rest) = replacement ++ replaceChar c replacement rest := by
  simp [replaceChar]

theorem replaceChar_cons {c d : Char} (h : d ≠ c) (replacement rest : List Char) :
    replaceChar c replacement (d :: rest) = d :: replaceChar c replacement rest := by
  simp [replaceChar, h]

theorem not_mem_replaceChar {c : Char} {replacement : List Char} (h : c ∉ replacement)
    (text : List Char) : c ∉ replaceChar c replacement text := by
  intro hmem
  obtain ⟨d, -, hd⟩ := List.mem_flatMap.1 hmem
  by_cases hdc : d = c
  · rw [if_pos hdc] at hd
    exact h hd
  · rw [if_neg hdc, List.mem_singleton] at hd
    exact hdc hd.symm

theorem replaceTilde_cons {digit replacement c : Char} (h : c ≠ '~') (rest : List Char) :
    replaceTilde digit replacement (c :: rest) = c :: replaceTilde digit replacement rest := by
  cases rest with
  | nil => rfl
  | cons d rest => simp [replaceTilde, h]

theorem replaceTilde_pair (digit replacement : Char) (rest : List Char) :
    replaceTilde digit replacement ('~' :: digit :: rest) =
      replacement :: replaceTilde digit replacement rest := by
  rw [replaceTilde, if_pos ⟨rfl, rfl⟩]

/-- A tilde before another digit is not replaced. -/
theorem replaceTilde_other {digit other : Char} (h : other ≠ digit) (replacement : Char)
    (rest : List Char) : replaceTilde digit replacement ('~' :: other :: rest) =
      '~' :: replaceTilde digit replacement (other :: rest) := by
  rw [replaceTilde, if_neg (fun hpair => h hpair.2)]

theorem replaceTilde_of_not_mem {text : List Char} (h : '~' ∉ text) (digit replacement : Char) :
    replaceTilde digit replacement text = text := by
  induction text with
  | nil => rfl
  | cons c rest ih =>
    rw [List.mem_cons, not_or] at h
    rw [replaceTilde_cons (Ne.symm h.1), ih h.2]

end Text

namespace Pointer

open Text

/-- The tildes go first, so that those of the replaced slashes stay as they are. -/
theorem toList_escape (key : String) :
    (escape key).toList = replaceChar '/' ['~', '1'] (replaceChar '~' ['~', '0'] key.toList) := by
  have hchar : ∀ c, escapeChar c =
      replaceChar '/' ['~', '1'] (if c = '~' then ['~', '0'] else [c]) := by
    intro c
    unfold escapeChar
    split
    · rfl
    · simp [replaceChar]
  rw [escape, String.toList_ofList, funext hchar]
  exact List.flatMap_assoc.symm

/-- The slashes are read back first, where every tilde of the key is still in front of a zero. -/
theorem replaceTilde_slashes (key : List Char) :
    replaceTilde '1' '/' (replaceChar '/' ['~', '1'] (replaceChar '~' ['~', '0'] key)) =
      replaceChar '~' ['~', '0'] key := by
  induction key with
  | nil => rfl
  | cons c rest ih =>
    by_cases htilde : c = '~'
    · subst htilde
      simp only [replaceChar_cons_self, List.cons_append, List.nil_append]
      rw [replaceChar_cons (by decide), replaceChar_cons (by decide),
        replaceTilde_other (by decide), replaceTilde_cons (by decide), ih]
    · rw [replaceChar_cons htilde]
      by_cases hslash : c = '/'
      · subst hslash
        rw [replaceChar_cons_self]
        exact (replaceTilde_pair _ _ _).trans (congrArg _ ih)
      · rw [replaceChar_cons hslash, replaceTilde_cons htilde, ih]

theorem replaceTilde_tildes (key : List Char) :
    replaceTilde '0' '~' (replaceChar '~' ['~', '0'] key) = key := by
  induction key with
  | nil => rfl
  | cons c rest ih =>
    by_cases htilde : c = '~'
    · subst htilde
      rw [replaceChar_cons_self]
      exact (replaceTilde_pair _ _ _).trans (congrArg _ ih)
    · rw [replaceChar_cons htilde, replaceTilde_cons htilde, ih]

@[simp] theorem unescape_escape (key : String) : unescape (escape key) = key := by
  rw [unescape, toList_escape, replaceTilde_slashes, replaceTilde_tildes, String.ofList_toList]

theorem escape_injective : Function.Injective escape :=
  Function.LeftInverse.injective unescape_escape

theorem slash_not_mem_escape (key : String) : '/' ∉ (escape key).toList := by
  rw [toList_escape]
  exact not_mem_replaceChar (by decide) _

/-- A token without tildes stands for itself. -/
theorem unescape_of_not_mem {token : String} (h : '~' ∉ token.toList) :
    unescape token = token := by
  rw [unescape, replaceTilde_of_not_mem h, replaceTilde_of_not_mem h, String.ofList_toList]

@[simp] theorem unescape_repr (n : Nat) : unescape n.repr = n.repr :=
  unescape_of_not_mem (Text.not_mem_repr rfl n)

theorem rawTokens?_child {pointer token : String} {raws : List String}
    (h : rawTokens? pointer = some raws) (htoken : '/' ∉ token.toList) :
    rawTokens? (child pointer token) = some (raws ++ [token]) := by
  have htext : (child pointer token).toList = pointer.toList ++ '/' :: token.toList := by
    simp [child]
  unfold rawTokens? at h ⊢
  rw [htext]
  split at h
  · rename_i hnil
    cases h
    simp [hnil, Text.segments_of_not_mem htoken]
  · rename_i rest hrest
    cases h
    simp only [hrest, List.cons_append, Text.segments_append,
      Text.segments_of_not_mem htoken, List.map_append, List.map_cons, List.map_nil,
      String.ofList_toList]
  · simp at h

theorem tokens?_eq_some {pointer : String} {tokens : List String} :
    tokens? pointer = some tokens ↔
      ∃ raws, rawTokens? pointer = some raws ∧ raws.map unescape = tokens := by
  simp [tokens?, Option.map_eq_some_iff]

theorem tokens?_child {pointer token : String} {tokens : List String}
    (h : tokens? pointer = some tokens) (htoken : '/' ∉ token.toList) :
    tokens? (child pointer token) = some (tokens ++ [unescape token]) := by
  obtain ⟨raws, hraws, rfl⟩ := tokens?_eq_some.1 h
  exact tokens?_eq_some.2 ⟨raws ++ [token], rawTokens?_child hraws htoken, by simp⟩

theorem rawTokens?_member {pointer : String} {raws : List String}
    (h : rawTokens? pointer = some raws) (key : String) :
    rawTokens? (member pointer key) = some (raws ++ [escape key]) :=
  rawTokens?_child h (slash_not_mem_escape key)

theorem tokens?_member {pointer : String} {tokens : List String}
    (h : tokens? pointer = some tokens) (key : String) :
    tokens? (member pointer key) = some (tokens ++ [key]) := by
  have hchild := tokens?_child h (slash_not_mem_escape key)
  rwa [unescape_escape] at hchild

theorem tokens?_element {pointer : String} {tokens : List String}
    (h : tokens? pointer = some tokens) (index : Nat) :
    tokens? (element pointer index) = some (tokens ++ [index.repr]) := by
  have hchild := tokens?_child h (Text.not_mem_repr rfl index)
  rwa [unescape_repr] at hchild

end Pointer

namespace Json

theorem pointer?_eq_some {v w : Json} {pointer : String} :
    v.pointer? pointer = some w ↔
      ∃ tokens, Pointer.tokens? pointer = some tokens ∧ resolve? tokens v = some w :=
  Option.bind_eq_some_iff

/-- The pointer to a member of an object finds what the object has there, if it has anything. -/
theorem pointer?_member {v : Json} {pointer : String} {members : List (String × Json)}
    (h : v.pointer? pointer = some (.obj members)) (key : String) :
    v.pointer? (Pointer.member pointer key) = Entries.get? members key := by
  obtain ⟨tokens, htokens, hobject⟩ := pointer?_eq_some.1 h
  rw [pointer?_eq (Pointer.tokens?_member htokens key), resolve?_append, hobject,
    Option.bind_some, resolve?_singleton]

end Json

namespace Pointer

/-- A key is escaped by replacing its tildes and then its slashes. Its token has no slash, is read
back as the key and is the token of no other key, and the pointer that it is put to finds what the
object there has under the key: nothing if the object lacks it. -/
theorem escape_exact (key : String) :
    (escape key).toList =
      Text.replaceChar '/' ['~', '1'] (Text.replaceChar '~' ['~', '0'] key.toList) ∧
    '/' ∉ (escape key).toList ∧ unescape (escape key) = key ∧
    (∀ other, other ≠ key → escape other ≠ escape key) ∧
    ∀ (v : Json) (pointer : String) (members : List (String × Json)),
      v.pointer? pointer = some (.obj members) →
      v.pointer? (pointer ++ "/" ++ escape key) = Entries.get? members key :=
  ⟨toList_escape key, slash_not_mem_escape key, unescape_escape key,
    fun _ hne heq => hne (escape_injective heq), fun _ _ _ h => Json.pointer?_member h key⟩

/-- Two annotations whose keys are told apart by the order in which a token is read back. -/
def annotations : List (String × Json) := [("~01", .str "tilde"), ("~1", .str "slash")]

theorem escape_exact_annotations :
    (Json.obj [("a/b", .obj annotations)]).pointer? "/a~1b" = some (.obj annotations) ∧
    "~1" ≠ "~01" ∧ escape "~1" ≠ escape "~01" ∧
    (Json.obj [("a/b", .obj annotations)]).pointer? ("/a~1b" ++ "/" ++ escape "~01") =
      some (.str "tilde") := by
  have hobject : (Json.obj [("a/b", .obj annotations)]).pointer? "/a~1b" =
      some (.obj annotations) := by rfl
  have hne : "~1" ≠ "~01" := by decide
  obtain ⟨-, -, -, hdistinct, hfinds⟩ := escape_exact "~01"
  exact ⟨hobject, hne, hdistinct "~1" hne, hfinds _ _ _ hobject⟩

end Pointer

end DesiredState
