import Mathlib.Data.Set.List
import Script.Proofs.Token.Retyping

/-!
# String literals

A string literal is a sequence of items between quotes. An item is a character other than a quote
and a backslash, or a backslash with what it escapes: one of six characters, or the digits of a code
point. Items follow each other without separators, and still a literal can be read in one way only.

Here items are described by what they consist of and not by how they are scanned.

## Main definitions

* `HexDigit` : hexadecimal digits of either case.
* `LiteralItem` : items, each with its text and the character that it denotes.

## Main results

* `LiteralItem.isWritten_item`, `LiteralItem.exists_item_eq` : scanning knows the same items.
* `lex_quoted` : string literals and their values.
-/

namespace Script

open Lexeme

/-- A hexadecimal digit, by its value and its case. Digits below ten look the same in both cases. -/
structure HexDigit where
  value : Fin 16
  upper : Bool

/-- How a digit is written. -/
def HexDigit.char (d : HexDigit) : Char :=
  if d.upper then (Nat.digitChar d.value).toUpper else Nat.digitChar d.value

/-- The number that two digits write. -/
def HexDigit.pair (a b : HexDigit) : Nat :=
  16 * a.value + b.value

/-- The number that four digits write. -/
def HexDigit.four (a b c d : HexDigit) : Nat :=
  256 * a.pair b + c.pair d

/-- An item of a string literal. -/
inductive LiteralItem where
  | plain (c : Char) (hquote : c ≠ '\x22') (hbackslash : c ≠ '\\')
  | lineFeed
  | tab
  | carriageReturn
  | quote
  | backslash
  | zero
  | byte (a b : HexDigit)
  /-- No code point of a surrogate can be written. -/
  | unit (a b c d : HexDigit) (hcode : a.four b c d < 0xD800 ∨ 0xDFFF < a.four b c d)

namespace LiteralItem

/-- How an item is written. -/
def text : LiteralItem → List Char
  | plain c _ _ => [c]
  | lineFeed => ['\\', 'n']
  | tab => ['\\', 't']
  | carriageReturn => ['\\', 'r']
  | quote => ['\\', '\x22']
  | backslash => ['\\', '\\']
  | zero => ['\\', '0']
  | byte a b => ['\\', 'x', a.char, b.char]
  | unit a b c d _ => ['\\', 'u', a.char, b.char, c.char, d.char]

/-- The character that an item denotes. -/
def denotes : LiteralItem → Char
  | plain c _ _ => c
  | lineFeed => '\n'
  | tab => '\t'
  | carriageReturn => '\r'
  | quote => '\x22'
  | backslash => '\\'
  | zero => '\x00'
  | byte a b => Char.ofNat (a.pair b)
  | unit a b c d _ => Char.ofNat (a.four b c d)

/-- The text of a string literal with some items. -/
def quoted (is : List LiteralItem) : String :=
  String.ofList ('\x22' :: (is.flatMap text ++ ['\x22']))

/-- The string that items denote. -/
def string (is : List LiteralItem) : String :=
  String.ofList (is.map denotes)

end LiteralItem

/-! ### Digits -/

namespace HexDigit

theorem hexValue?_char (d : HexDigit) : hexValue? d.char = some d.value.val := by
  have h : ∀ (value : Fin 16) (upper : Bool), hexValue? (HexDigit.char ⟨value, upper⟩) =
      some value.val := by decide
  exact h d.value d.upper

/-- A range of characters that are the digits of some case consists of digits. -/
private theorem exists_char_eq_of_le {first last : Char} (upper : Bool)
    (hrange : ∀ k ≤ last.toNat - first.toNat,
      ∃ value, (char ⟨value, upper⟩).toNat = first.toNat + k)
    {c : Char} (hfirst : first ≤ c) (hlast : c ≤ last) : ∃ d : HexDigit, d.char = c := by
  have hle : first.toNat ≤ c.toNat := hfirst
  have hle' : c.toNat ≤ last.toNat := hlast
  obtain ⟨value, hvalue⟩ := hrange (c.toNat - first.toNat) (by omega)
  refine ⟨⟨value, upper⟩, ?_⟩
  rw [← Char.ofNat_toNat c, ← Char.ofNat_toNat (char _), hvalue]
  congr 1
  omega

theorem exists_char_eq {c : Char} (h : (hexValue? c).isSome) : ∃ d : HexDigit, d.char = c := by
  rw [hexValue?] at h
  split at h
  · next hc =>
    rw [isDigit, Bool.and_eq_true, decide_eq_true_iff, decide_eq_true_iff] at hc
    exact exists_char_eq_of_le false (by decide) hc.1 hc.2
  · split at h
    · next hc =>
      rw [Bool.and_eq_true, decide_eq_true_iff, decide_eq_true_iff] at hc
      exact exists_char_eq_of_le false (by decide) hc.1 hc.2
    · split at h
      · next hc =>
        rw [Bool.and_eq_true, decide_eq_true_iff, decide_eq_true_iff] at hc
        exact exists_char_eq_of_le true (by decide) hc.1 hc.2
      · cases h

/-- Characters with values are digits. -/
theorem exists_map_char_eq {cs : List Char} (h : ∀ c ∈ cs, (hexValue? c).isSome) :
    ∃ ds : List HexDigit, ds.map char = cs := by
  have hrange : cs ∈ Set.range (List.map char) := by
    rw [Set.range_list_map]
    exact fun c hc => exists_char_eq (h c hc)
  exact hrange

theorem pair_lt (a b : HexDigit) : a.pair b < 256 := by
  have := a.value.isLt
  have := b.value.isLt
  rw [pair]
  omega

theorem hexNumber_pair (a b : HexDigit) : hexNumber [a.char, b.char] = a.pair b := by
  simp [hexNumber, hexValue?_char, pair]

theorem hexNumber_four (a b c d : HexDigit) :
    hexNumber [a.char, b.char, c.char, d.char] = a.four b c d := by
  simp [hexNumber, hexValue?_char, four, pair]
  omega

end HexDigit

/-! ### Items -/

namespace LiteralItem

/-- An item as scanning gives it. -/
def item (i : LiteralItem) : Item :=
  ⟨i.text, i.denotes⟩

/-- A code point is that of its character. -/
private theorem toNat_ofNat {code : Nat} (h : code.isValidChar) :
    (Char.ofNat code).toNat = code := by
  rw [Char.ofNat, dif_pos h]
  rfl

/-- The number that the digits write is the code point of the character. -/
theorem toNat_denotes_byte (a b : HexDigit) : (byte a b).denotes.toNat = a.pair b := by
  have := a.pair_lt b
  exact toNat_ofNat (.inl (by omega))

theorem toNat_denotes_unit (a b c d : HexDigit)
    (hcode : a.four b c d < 0xD800 ∨ 0xDFFF < a.four b c d) :
    (unit a b c d hcode).denotes.toNat = a.four b c d := by
  have := a.pair_lt b
  have := c.pair_lt d
  have hlt : a.four b c d < 0x110000 := by
    rw [HexDigit.four]
    omega
  exact toNat_ofNat (hcode.imp_right fun h => ⟨h, hlt⟩)

private theorem isWritten_hex {letter : Char} (ds : List HexDigit) {code : Nat}
    (hescape : (letter, ds.length) ∈ hexEscapes) (hnumber : hexNumber (ds.map HexDigit.char) = code)
    (hcode : isSurrogate code = false) :
    Item.IsWritten ⟨'\\' :: letter :: ds.map HexDigit.char, Char.ofNat code⟩ := by
  subst hnumber
  refine .hex (by rwa [List.length_map]) ?_ hcode
  rw [List.forall_mem_map]
  exact fun d _ => by rw [d.hexValue?_char, Option.isSome_some]

theorem isWritten_item (i : LiteralItem) : i.item.IsWritten := by
  cases i with
  | plain c hquote hbackslash => exact .plain hquote hbackslash
  | byte a b =>
    refine isWritten_hex [a, b] (by simp [hexEscapes]) (a.hexNumber_pair b) ?_
    have := a.pair_lt b
    simp only [isSurrogate, Bool.and_eq_false_iff, decide_eq_false_iff_not]
    omega
  | unit a b c d hcode =>
    refine isWritten_hex [a, b, c, d] (by simp [hexEscapes]) (a.hexNumber_four b c d) ?_
    simp only [isSurrogate, Bool.and_eq_false_iff, decide_eq_false_iff_not]
    omega
  | _ => exact .simple (by decide)

theorem exists_item_eq {item : Item} (h : item.IsWritten) : ∃ i : LiteralItem, i.item = item := by
  cases h with
  | @plain c hquote hbackslash => exact ⟨.plain c hquote hbackslash, rfl⟩
  | @simple c denotes hescape =>
    have hescapes : ∀ entry ∈ simpleEscapes,
        ∃ i ∈ [lineFeed, tab, carriageReturn, quote, backslash, zero],
          i.item = ⟨['\\', entry.1], entry.2⟩ := by
      simp [simpleEscapes, item, text, LiteralItem.denotes]
    obtain ⟨i, -, hi⟩ := hescapes _ hescape
    exact ⟨i, hi⟩
  | @hex letter digits hescape hdigits hcode =>
    obtain ⟨ds, rfl⟩ := HexDigit.exists_map_char_eq hdigits
    rw [List.length_map] at hescape
    simp only [hexEscapes, List.mem_cons, List.not_mem_nil, or_false, Prod.mk.injEq] at hescape
    rcases hescape with ⟨rfl, hlength⟩ | ⟨rfl, hlength⟩
    · obtain ⟨a, b, c, d, rfl⟩ := List.length_eq_four.mp hlength
      have hnumber : hexNumber ([a, b, c, d].map HexDigit.char) = _ := a.hexNumber_four b c d
      rw [hnumber] at hcode ⊢
      simp only [isSurrogate, Bool.and_eq_false_iff, decide_eq_false_iff_not] at hcode
      exact ⟨unit a b c d (by omega), rfl⟩
    · obtain ⟨a, b, rfl⟩ := List.length_eq_two.mp hlength
      have hnumber : hexNumber ([a, b].map HexDigit.char) = _ := a.hexNumber_pair b
      rw [hnumber]
      exact ⟨byte a b, rfl⟩

/-- Scanned items and what they consist of. -/
theorem exists_map_item_eq {items : List Item} (h : ∀ item ∈ items, item.IsWritten) :
    ∃ is : List LiteralItem, is.map item = items := by
  have hrange : items ∈ Set.range (List.map item) := by
    rw [Set.range_list_map]
    exact fun i hi => exists_item_eq (h i hi)
  exact hrange

/-- A string literal as scanning finds it. -/
def lexeme (is : List LiteralItem) : Lexeme :=
  ofItems (is.map item)

theorem lexeme_eq (is : List LiteralItem) :
    lexeme is =
      ⟨'\x22' :: (is.flatMap text ++ ['\x22']), some (.string, .text (string is))⟩ := by
  simp [lexeme, ofItems, string, item, List.flatMap_map, Function.comp_def]

theorem munches_quoted (is : List LiteralItem) : Munches (quoted is).toList [lexeme is] [] := by
  have hwritten : ∀ i ∈ is.map item, i.IsWritten :=
    List.forall_mem_map.mpr fun i _ => i.isWritten_item
  have hmunches := Munches.of_items hwritten
  rw [List.flatMap_map] at hmunches
  rw [quoted, String.toList_ofList]
  exact hmunches

/-- Lexing a literal gives it and its value. -/
theorem lex_quoted_eq (is : List LiteralItem) :
    ∃ token mark, lex (quoted is) = .ok [token, mark] ∧ token.kind = .string ∧
      token.text = quoted is ∧ token.literal = .text (string is) ∧ mark.kind = .endOfInput := by
  have hlex := lex_of_munches (munches_quoted is)
  simp only [tokensBehind, lexeme_eq] at hlex
  exact ⟨_, _, hlex, rfl, rfl, rfl, rfl⟩

/-- Every string is denoted by some items. -/
theorem exists_string_eq (value : String) : ∃ is, string is = value := by
  have hchar (c : Char) : ∃ i : LiteralItem, i.denotes = c := by
    by_cases hquote : c = '\x22'
    · exact ⟨quote, hquote.symm⟩
    · by_cases hbackslash : c = '\\'
      · exact ⟨backslash, hbackslash.symm⟩
      · exact ⟨plain c hquote hbackslash, rfl⟩
  obtain ⟨is, his⟩ : ∃ is : List LiteralItem, is.map denotes = value.toList :=
    List.map_surjective_iff.mpr hchar value.toList
  exact ⟨is, by rw [string, his, String.ofList_toList]⟩

end LiteralItem

/-- Only a string literal is of its kind. -/
theorem IsLexeme.eq_literal {l : Lexeme} (h : IsLexeme l) {literal : Constant}
    (hmeaning : l.meaning = some (.string, literal)) : ∃ is, l = LiteralItem.lexeme is := by
  have hoperators : ∀ entry ∈ operators, entry.2 ≠ .string := by decide
  have hkeywords : ∀ entry ∈ Kind.keywords, entry.2 ≠ .string := by decide
  cases h with
  | string hitems =>
    obtain ⟨is, rfl⟩ := LiteralItem.exists_map_item_eq hitems
    exact ⟨is, rfl⟩
  | operator hmem =>
    cases hmeaning
    exact absurd rfl (hoperators _ hmem)
  | keyword hmem =>
    cases hmeaning
    exact absurd rfl (hkeywords _ hmem)
  | _ => cases hmeaning

/-- A token that is a string literal consists of items between quotes. -/
theorem exists_items_of_lex {source : String} {tokens : List Token} (h : lex source = .ok tokens)
    {token : Token} (htoken : token ∈ tokens) (hkind : token.kind = .string) :
    ∃ is, token.text = LiteralItem.quoted is ∧ token.literal = .text (LiteralItem.string is) := by
  obtain ⟨ls, hmunches, rfl⟩ := munches_of_lex h
  have hcontent := List.mem_map_of_mem (f := Token.content) htoken
  rw [map_content_tokensBehind, List.mem_append, List.mem_singleton] at hcontent
  rcases hcontent with hcontent | hmark
  · obtain ⟨l, hl, hsays⟩ := List.mem_filterMap.mp hcontent
    obtain ⟨⟨kind, literal⟩, hmeaning, hsame⟩ := Option.map_eq_some_iff.mp hsays
    simp only [Token.content, Prod.mk.injEq] at hsame
    obtain ⟨rfl, htext, rfl⟩ := hsame
    rw [hkind] at hmeaning
    obtain ⟨is, rfl⟩ := (hmunches.isLexeme l hl).eq_literal hmeaning
    rw [LiteralItem.lexeme_eq] at hmeaning htext
    obtain ⟨-, hliteral⟩ := Prod.mk.inj (Option.some.inj hmeaning)
    exact ⟨is, htext.symm, hliteral.symm⟩
  · have hend : token.kind = .endOfInput := congrArg Prod.fst hmark
    rw [hend] at hkind
    cases hkind

/-- Items between quotes are a string literal, and nothing else is: the only token of the text is of
this kind, and its value is the string of the characters that the items denote. Every string is the
value of a literal. -/
theorem lex_quoted :
    (∀ is : List LiteralItem, ∃ token mark, lex (LiteralItem.quoted is) = .ok [token, mark] ∧
      token.kind = .string ∧ token.text = LiteralItem.quoted is ∧
      token.literal = .text (LiteralItem.string is) ∧ mark.kind = .endOfInput) ∧
    (∀ (source : String) (tokens : List Token), lex source = .ok tokens →
      ∀ token ∈ tokens, token.kind = .string →
        ∃ is, token.text = LiteralItem.quoted is ∧
          token.literal = .text (LiteralItem.string is)) ∧
    ∀ value : String, ∃ is token mark, lex (LiteralItem.quoted is) = .ok [token, mark] ∧
      token.kind = .string ∧ token.literal = .text value ∧ mark.kind = .endOfInput := by
  refine ⟨LiteralItem.lex_quoted_eq, fun source tokens h token => exists_items_of_lex h, ?_⟩
  intro value
  obtain ⟨is, rfl⟩ := LiteralItem.exists_string_eq value
  obtain ⟨token, mark, hlex, hkind, -, hliteral, hmark⟩ := LiteralItem.lex_quoted_eq is
  exact ⟨is, token, mark, hlex, hkind, hliteral, hmark⟩

/-- Items that could be mistaken for others: a code point of two digits before a digit, a zero
before a digit, and a quote before the closing one. -/
theorem lex_quoted_neighbours :
    ∃ token mark, lex "\"\\x4a1\\07\\u00e9\\\"\"" = .ok [token, mark] ∧
      token.literal = .text "J1\x007é\"" ∧
      ∃ is, token.text = LiteralItem.quoted is ∧
        token.literal = .text (LiteralItem.string is) := by
  obtain ⟨token, mark, hlex, hkind, -, hliteral, -⟩ := lex_quoted.1
    [.byte ⟨4, false⟩ ⟨10, false⟩, .plain '1' (by decide) (by decide), .zero,
      .plain '7' (by decide) (by decide),
      .unit ⟨0, false⟩ ⟨0, false⟩ ⟨14, false⟩ ⟨9, false⟩ (by decide), .quote]
  exact ⟨token, mark, hlex, hliteral, lex_quoted.2.1 _ _ hlex token List.mem_cons_self hkind⟩

end Script
