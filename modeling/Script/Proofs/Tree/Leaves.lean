import Script.Proofs.Number.Reading
import Script.Proofs.Token.Classes
import Script.Proofs.Tree.Relocation

/-!
# Texts of leaves

A name, a number, an operator or a text in quotes stands in the text of a tree without parentheses
of its own. All but the last end at the next blank or parenthesis, and a text in quotes ends at the
next quote, so what is written behind it does not matter. This is so for the tokens of source texts
whose numbers are finite and whose string literals have no quote in them.

Names and constants are told apart by their texts: the texts of `null` and of the booleans are no
names, a number starts with a digit, and a text with a quote.

## Main definitions

* `IsAtom` : a text that ends where it seems to end.
* `Token.IsPlain` : the tokens that are shown by their texts.
* `Node.IsLeaf` : the names and constants with their texts, up to the places of tokens.

## Main results

* `IsAtom.eq` : an atom is told from what follows it.
* `eq_of_spaced_append` : what is told from what follows is told from it one by one.
* `Node.IsLeaf.unique` : a text is that of one leaf only.
-/

namespace Script

open Lexeme

/-! ### Texts that are told from what follows -/

/-- The characters at which a name, a number or an operator ends. -/
def breaks : List Char := [' ', '(', ')', '\x22']

/-- What may follow a part of a text: nothing, a blank or a closing parenthesis. -/
def Stops (rest : List Char) : Prop :=
  ∀ c ∈ rest.head?, c = ' ' ∨ c = ')'

theorem stops_nil : Stops [] :=
  fun _ h => nomatch h

theorem stops_blank (rest : List Char) : Stops (' ' :: rest) := by
  rintro c ⟨⟩
  exact .inl rfl

theorem stops_close (rest : List Char) : Stops (')' :: rest) := by
  rintro c ⟨⟩
  exact .inr rfl

/-- A text that can be told from what follows it: one without breaks, or one between quotes. -/
inductive IsAtom : List Char → Prop
  | plain {c : Char} {text : List Char} (htext : ∀ d ∈ c :: text, d ∉ breaks) : IsAtom (c :: text)
  | quoted {text : List Char} (htext : '\x22' ∉ text) : IsAtom ('\x22' :: (text ++ ['\x22']))

/-- An atom does not start with a parenthesis. -/
theorem IsAtom.append_ne {text : List Char} {c : Char} (h : IsAtom text) (hc : c ∈ ['(', ')'])
    (rest more : List Char) : text ++ rest ≠ c :: more := by
  have hbreaks : ['(', ')'] ⊆ breaks := by simp [breaks]
  intro heq
  cases h with
  | plain htext =>
    obtain ⟨rfl, -⟩ := List.cons.inj heq
    exact htext _ List.mem_cons_self (hbreaks hc)
  | quoted =>
    obtain ⟨rfl, -⟩ := List.cons.inj heq
    exact absurd hc (by decide)

/-- A text without breaks is what stands before the first break. -/
theorem takeWhile_of_stops {text rest : List Char} (htext : ∀ c ∈ text, c ∉ breaks)
    (hrest : Stops rest) : (text ++ rest).takeWhile (fun c => decide (c ∉ breaks)) = text := by
  rw [List.takeWhile_append_of_pos fun c hc => decide_eq_true (htext c hc)]
  cases rest with
  | nil => rw [List.takeWhile_nil, List.append_nil]
  | cons c rest =>
    rcases hrest c rfl with rfl | rfl <;> exact List.append_nil text

/-- An atom is told from what follows it. -/
theorem IsAtom.eq {text text' rest rest' : List Char} (h : IsAtom text) (h' : IsAtom text')
    (hrest : Stops rest) (hrest' : Stops rest') (heq : text ++ rest = text' ++ rest') :
    text = text' ∧ rest = rest' := by
  suffices hsame : text = text' by
    subst hsame
    exact ⟨rfl, List.append_cancel_left heq⟩
  cases h with
  | plain htext =>
    cases h' with
    | plain htext' => rw [← takeWhile_of_stops htext hrest, heq, takeWhile_of_stops htext' hrest']
    | quoted =>
      obtain ⟨rfl, -⟩ := List.cons.inj heq
      exact absurd (by decide) (htext _ List.mem_cons_self)
  | quoted htext =>
    cases h' with
    | plain htext' =>
      obtain ⟨rfl, -⟩ := List.cons.inj heq
      exact absurd (by decide) (htext' _ List.mem_cons_self)
    | quoted htext' =>
      simp only [List.cons_append, List.append_assoc, List.nil_append, List.cons.injEq,
        true_and] at heq
      have hcut := congrArg (Text.cut '\x22') heq
      rw [Text.cut_append htext, Text.cut_append htext'] at hcut
      rw [(Prod.mk.inj hcut).1]

/-- The texts, each of them behind a blank. -/
def spaced (texts : List String) : List Char :=
  texts.flatMap fun text => ' ' :: text.toList

theorem spaced_cons (text : String) (texts : List String) :
    spaced (text :: texts) = ' ' :: (text.toList ++ spaced texts) :=
  List.flatMap_cons

theorem Stops.spaced_append {rest : List Char} (h : Stops rest) (texts : List String) :
    Stops (spaced texts ++ rest) := by
  cases texts with
  | nil => exact h
  | cons text texts =>
    rw [spaced_cons]
    exact stops_blank _

/-- Things whose texts tell them from what follows, as far as a view of them goes, are told from
each other up to the closing parenthesis. -/
theorem eq_of_spaced_append {α β : Type} (view : α → β) {R S : α → String → Prop}
    (hread : ∀ {a b s t rest rest'}, R a s → S b t → Stops rest → Stops rest' →
      s.toList ++ rest = t.toList ++ rest' → view a = view b ∧ rest = rest')
    {as bs : List α} {ss ts : List String} {rest rest' : List Char}
    (has : List.Forall₂ R as ss) (hbs : List.Forall₂ S bs ts)
    (h : spaced ss ++ ')' :: rest = spaced ts ++ ')' :: rest') :
    as.map view = bs.map view ∧ rest = rest' := by
  induction has generalizing bs ts with
  | nil =>
    cases hbs with
    | nil => exact ⟨rfl, (List.cons.inj h).2⟩
    | cons => cases (List.cons.inj h).1
  | @cons a s as ss ha _ ih =>
    cases hbs with
    | nil => cases (List.cons.inj h).1
    | @cons b t bs ts hb hbs =>
      simp only [spaced_cons, List.cons_append, List.cons.injEq, true_and,
        List.append_assoc] at h
      obtain ⟨hview, hmore⟩ := hread ha hb ((stops_close rest).spaced_append ss)
        ((stops_close rest').spaced_append ts) h
      obtain ⟨hviews, hrest⟩ := ih hbs hmore
      exact ⟨by rw [List.map_cons, List.map_cons, hview, hviews], hrest⟩

/-! ### Words -/

/-- A name or a keyword. -/
def IsWord (text : String) : Prop :=
  ∃ c rest, text.toList = c :: rest ∧ isWordStart c = true ∧ ∀ d ∈ rest, isWordPart d = true

/-- A word that is no keyword. -/
def IsName (text : String) : Prop :=
  IsWord text ∧ ∀ kind, (text, kind) ∉ Kind.keywords

/-- A class of characters without breaks. -/
private theorem notMem_breaks {p : Char → Bool} (hp : breaks.all (fun c => !p c) = true)
    {text : List Char} (h : ∀ c ∈ text, p c = true) : ∀ c ∈ text, c ∉ breaks := by
  intro c hc hbreak
  have hnot := List.all_eq_true.mp hp c hbreak
  rw [h c hc] at hnot
  cases hnot

theorem IsWord.isAtom {text : String} (h : IsWord text) : IsAtom text.toList := by
  obtain ⟨c, rest, htext, hstart, hparts⟩ := h
  have hall : ∀ d ∈ c :: rest, isWordPart d = true :=
    List.forall_mem_cons.mpr ⟨Bool.or_eq_true_iff.mpr (.inl hstart), hparts⟩
  rw [htext]
  exact .plain (notMem_breaks (by decide) hall)

/-! ### Tokens that are shown by their texts -/

namespace Kind

/-- The kinds whose tokens all have one text, with that text. -/
def spellings : List (Kind × String) :=
  operators.map (fun entry => (entry.2, String.ofList entry.1)) ++ keywords.map Prod.swap

/-- The text of all tokens of a kind. -/
def spelling (kind : Kind) : String :=
  (spellings.lookup kind).getD ""

theorem eq_spelling {kind : Kind} {text : String} (h : (kind, text) ∈ spellings) :
    text = kind.spelling := by
  have hall : ∀ entry ∈ spellings, entry.2 = spelling entry.1 := by decide +kernel
  exact hall _ h

/-- Names, numbers, string literals and the end of the input have no one text. -/
theorem notMem_spellings {kind : Kind} (h : kind ∈ [.identifier, .number, .string, .endOfInput]) :
    kind ∉ spellings.map Prod.fst := by
  have hall : ∀ kind ∈ [.identifier, .number, .string, .endOfInput],
      kind ∉ spellings.map Prod.fst := by decide
  exact hall kind h

end Kind

/-- The constants that are written in a source text with a finite number or without a quote. -/
inductive Constant.IsPlain : Constant → Prop
  | number {x : Number} {m : Nat} {e : Int} (hx : x.exact = .finite false m e) :
      IsPlain (.number x)
  | text {s : String} (hs : '\x22' ∉ s.toList) : IsPlain (.text s)

namespace Token

/-- A token of a kind with one text, without its place. -/
def ofKind (kind : Kind) : Token :=
  ⟨kind, kind.spelling, .null, 0, 0, kind.spelling.length⟩

/-- A name without its place. -/
def ofName (name : String) : Token :=
  ⟨.identifier, name, .null, 0, 0, name.length⟩

/-- The tokens that are shown by their texts. -/
inductive IsPlain (token : Token) : Prop
  | spelled (htext : (token.kind, token.text) ∈ Kind.spellings) (hliteral : token.literal = .null)
      (hlength : token.length = token.text.length)
  | name (hkind : token.kind = .identifier) (htext : IsName token.text)
      (hliteral : token.literal = .null) (hlength : token.length = token.text.length)
  | value (hkind : token.kind = .number ∨ token.kind = .string) (hliteral : token.literal.IsPlain)
  | mark (hkind : token.kind = .endOfInput)

variable {token : Token}

/-- A name differs from any name with its text in its place only. -/
theorem IsPlain.of_identifier (h : token.IsPlain) (hkind : token.kind = .identifier) :
    IsName token.text ∧ Relocation.forget token = ofName token.text := by
  cases h with
  | spelled htext =>
    exact absurd (List.mem_map_of_mem htext) (Kind.notMem_spellings (by simp [hkind]))
  | name _ htext hliteral hlength =>
    rw [Relocation.apply, hkind, hliteral, hlength]
    exact ⟨htext, rfl⟩
  | value hvalue => simp [hkind] at hvalue
  | mark hmark => cases hkind.symm.trans hmark

/-- A token of a kind with one text differs from any token of the kind in its place only. -/
theorem IsPlain.of_mem_spellings (h : token.IsPlain)
    (hkind : token.kind ∈ Kind.spellings.map Prod.fst) :
    token.text = token.kind.spelling ∧ Relocation.forget token = ofKind token.kind := by
  cases h with
  | spelled htext hliteral hlength =>
    have hspelling := Kind.eq_spelling htext
    rw [Relocation.apply, hliteral, hlength, hspelling]
    exact ⟨rfl, rfl⟩
  | name hother => exact absurd hkind (Kind.notMem_spellings (by simp [hother]))
  | value hother =>
    exact absurd hkind (Kind.notMem_spellings (by rcases hother with h | h <;> simp [h]))
  | mark hother => exact absurd hkind (Kind.notMem_spellings (by simp [hother]))

/-- The value of a number or of a string literal. -/
theorem IsPlain.isPlain_literal (h : token.IsPlain)
    (hkind : token.kind = .number ∨ token.kind = .string) : token.literal.IsPlain := by
  cases h with
  | spelled htext =>
    exact absurd (List.mem_map_of_mem htext)
      (Kind.notMem_spellings (by rcases hkind with h | h <;> simp [h]))
  | name hname => simp [hname] at hkind
  | value _ hliteral => exact hliteral
  | mark hmark => simp [hmark] at hkind

end Token

/-! ### Leaves -/

namespace Node

/-- The constant or the name that a word is. -/
def ofWord (word : String) : Node :=
  match Kind.ofWord word with
  | .nullWord => .literal .null
  | .trueWord => .literal (.bool true)
  | .falseWord => .literal (.bool false)
  | _ => .reference (.ofName word)

theorem ofWord_of_isName {word : String} (h : IsName word) :
    ofWord word = .reference (.ofName word) := by
  have hlookup : Kind.keywords.lookup word = none := by
    rw [List.lookup_eq_none_iff]
    rintro ⟨keyword, kind⟩ hmem
    rw [bne_iff_ne]
    rintro rfl
    exact h.2 kind hmem
  rw [ofWord, Kind.ofWord, hlookup]
  rfl

/-- The names and constants with their texts, up to the places of tokens. -/
inductive IsLeaf : Node → String → Prop
  | word {word : String} (hword : IsWord word) : IsLeaf (ofWord word) word
  | number {x : Number} {m : Nat} {e : Int} (hx : x.exact = .finite false m e) :
      IsLeaf (.literal (.number x)) (Constant.number x).render
  | text {s : String} (hs : '\x22' ∉ s.toList) :
      IsLeaf (.literal (.text s)) (Constant.text s).render

theorem toList_render_text (s : String) :
    (Constant.text s).render.toList = '\x22' :: (s.toList ++ ['\x22']) := by
  simp [Constant.render, String.toList_append]

variable {a b : Node} {text : String}

theorem IsLeaf.isAtom (h : a.IsLeaf text) : IsAtom text.toList := by
  cases h with
  | word hword => exact hword.isAtom
  | number hx =>
    obtain ⟨⟨c, rest, htext, -⟩, hparts⟩ := Number.toList_render_number hx
    rw [htext] at hparts ⊢
    exact .plain (notMem_breaks (by decide) hparts)
  | text hs =>
    rw [toList_render_text]
    exact .quoted hs

/-- The kind of the leaf that a text starts as. -/
def startingKind (text : String) : Option Kind :=
  text.toList.head?.map fun c =>
    if isWordStart c then .identifier else if c = '\x22' then .string else .number

theorem startingKind_word (h : IsWord text) : startingKind text = some .identifier := by
  obtain ⟨c, rest, htext, hstart, -⟩ := h
  rw [startingKind, htext, List.head?_cons, Option.map_some, if_pos hstart]

theorem startingKind_number {x : Number} {m : Nat} {e : Int} (hx : x.exact = .finite false m e) :
    startingKind (Constant.number x).render = some .number := by
  obtain ⟨⟨c, rest, htext, hdigit⟩, -⟩ := Number.toList_render_number hx
  have hword : ¬isWordStart c = true := fun hstart => by
    cases (isDigit_eq_false_of_isWordStart hstart).symm.trans hdigit
  have hquote : c ≠ '\x22' := by
    rintro rfl
    cases hdigit
  rw [startingKind, htext, List.head?_cons, Option.map_some, if_neg hword, if_neg hquote]

theorem startingKind_text (s : String) :
    startingKind (Constant.text s).render = some .string := by
  rw [startingKind, toList_render_text]
  rfl

/-- A text is that of one leaf only. -/
theorem IsLeaf.unique (ha : a.IsLeaf text) (hb : b.IsLeaf text) : a = b := by
  cases ha with
  | word hword =>
    have hkind := startingKind_word hword
    generalize htext : text = text' at hb
    rw [htext] at hkind
    cases hb with
    | word => rfl
    | number hy => cases hkind.symm.trans (startingKind_number hy)
    | text => cases hkind.symm.trans (startingKind_text _)
  | number hx =>
    have hkind := startingKind_number hx
    generalize htext : (Constant.number _).render = text' at hb
    rw [htext] at hkind
    cases hb with
    | word hword => cases hkind.symm.trans (startingKind_word hword)
    | number hy => rw [Number.render_number_injective hx hy htext]
    | text => cases hkind.symm.trans (startingKind_text _)
  | @text s hs =>
    have hkind := startingKind_text s
    generalize htext : (Constant.text s).render = text' at hb
    rw [htext] at hkind
    cases hb with
    | word hword => cases hkind.symm.trans (startingKind_word hword)
    | number hy => cases hkind.symm.trans (startingKind_number hy)
    | text =>
      have hchars := congrArg String.toList htext
      rw [toList_render_text, toList_render_text] at hchars
      rw [String.toList_inj.mp (List.append_cancel_right (List.cons.inj hchars).2)]

end Node

end Script
