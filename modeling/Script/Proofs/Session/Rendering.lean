import Script.Proofs.Session.Sources
import Script.Proofs.Tree.Building
import Script.Proofs.Tree.Readability

/-!
# The text of a program is unambiguous

A statement of a program, or a part of one, is known from its text: only statements that differ in
the places of their tokens have the same text. The programs may have different sources. This is so
if the numbers of the sources are finite and their string literals have no quote in them. All
infinite numbers have one text, and a quote ends the text of a string literal wherever it stands.

## Main definitions

* `IsReadable` : a source text with such numbers and string literals.
* `Node.IsWithin` : the statements of a program and their parts.

## Main results

* `render_eq_iff_forget_eq` : trees of programs have the same text if and only if they are the same,
  up to the places of their tokens.
-/

namespace Script

/-! ### Tokens of readable sources -/

/-- A finite number, a text without a quote, or another constant. -/
def Constant.IsReadable : Constant → Prop
  | .number x => ∃ negative m e, x.exact = .finite negative m e
  | .text s => '\x22' ∉ s.toList
  | _ => True

/-- A source text whose numbers are finite and whose string literals have no quote in them. -/
def IsReadable (source : String) : Prop :=
  ∀ token, IsLexed source token → token.literal.IsReadable

theorem isReadable_of_lex {source : String} {tokens : List Token} (h : lex source = .ok tokens)
    (htokens : ∀ token ∈ tokens, token.literal.IsReadable) : IsReadable source := by
  rintro token ⟨tokens', hlex, htoken⟩
  cases h.symm.trans hlex
  exact htokens token htoken

/-- A token of a lexeme with a readable literal is shown by its text. -/
theorem IsLexeme.isPlain {l : Lexeme} {kind : Kind} {literal : Constant} (h : IsLexeme l)
    (hmeaning : l.meaning = some (kind, literal)) (hliteral : literal.IsReadable)
    (read : List Char) : (Token.endingBehind read kind l.text literal).IsPlain := by
  have hlength : (l.text.length : Int) = (String.ofList l.text).length :=
    congrArg Int.ofNat String.length_ofList.symm
  have hnumber {digits places : Nat} (h : (Constant.number (.ofDecimal digits places)).IsReadable) :
      (Constant.number (.ofDecimal digits places)).IsPlain := by
    obtain ⟨negative, m, e, hexact⟩ := h
    obtain rfl := Number.negative_eq_false_of_ofDecimal hexact
    exact .number hexact
  cases h with
  | space | lineComment | blockComment => cases hmeaning
  | operator hmem =>
    cases hmeaning
    exact .spelled (List.mem_append_left _ (List.mem_map_of_mem hmem)) rfl hlength
  | keyword hmem =>
    cases hmeaning
    exact .spelled (List.mem_append_right _ (List.mem_map_of_mem hmem)) rfl hlength
  | @identifier c word hstart hparts hnot =>
    cases hmeaning
    exact .name rfl ⟨⟨c, word, String.toList_ofList, hstart, hparts⟩, hnot⟩ rfl hlength
  | string =>
    cases hmeaning
    exact .value (.inr rfl) (.text hliteral)
  | integer | decimal =>
    cases hmeaning
    exact .value (.inl rfl) (hnumber hliteral)

theorem isPlain_of_mem_tokensBehind {read : List Char} {ls : List Lexeme} {token : Token}
    (hls : ∀ l ∈ ls, IsLexeme l) (h : token ∈ tokensBehind read ls)
    (hliteral : token.literal.IsReadable) : token.IsPlain := by
  induction ls generalizing read with
  | nil =>
    cases List.mem_singleton.mp h
    exact .mark rfl
  | cons l ls ih =>
    rw [List.forall_mem_cons] at hls
    rcases List.mem_append.mp h with h | h
    · obtain ⟨meaning, hmeaning, rfl⟩ := Option.map_eq_some_iff.mp (Option.mem_toList.mp h)
      exact hls.1.isPlain hmeaning hliteral _
    · exact ih hls.2 h

/-- The program of a readable source has the tokens of the grammar, which are shown by their
texts. -/
theorem IsParsed.isBuilt {source : String} {program : List Node} (h : IsParsed source program)
    (hsource : IsReadable source) : ∀ node ∈ program, node.IsBuilt Token.IsPlain := by
  obtain ⟨tokens, hlex, hparse⟩ := h
  obtain ⟨mark, -, hderives⟩ := isProgram_of_parse (endsOnce_of_lex hlex) hparse
  refine hderives.isBuilt fun token htoken => ?_
  obtain ⟨ls, hmunches, rfl⟩ := munches_of_lex hlex
  exact isPlain_of_mem_tokensBehind hmunches.isLexeme htoken (hsource token ⟨_, hlex, htoken⟩)

/-! ### Statements and their parts -/

/-- The statements of a program and all that they are made of. -/
inductive Node.IsWithin (program : List Node) : Node → Prop
  | statement {node : Node} (hnode : node ∈ program) : IsWithin program node
  | part {node part : Node} (hnode : IsWithin program node) (hpart : part ∈ node.parts) :
      IsWithin program part

theorem Node.IsWithin.isBuilt {isOf : Token → Prop} {program : List Node} {node : Node}
    (h : node.IsWithin program) (hprogram : ∀ node ∈ program, node.IsBuilt isOf) :
    node.IsBuilt isOf := by
  induction h with
  | statement hnode => exact hprogram _ hnode
  | part _ hpart ih =>
    cases ih with
    | mk _ hparts => exact hparts _ hpart

/-- Take two statements, or parts of statements, of programs whose numbers are finite and whose
string literals have no quote in them. They have the same text if and only if they differ in the
places of their tokens only. -/
theorem render_eq_iff_forget_eq {source₁ source₂ text₁ text₂ : String}
    {program₁ program₂ : List Node} {node₁ node₂ : Node} {depth₁ depth₂ : Nat}
    (h₁ : IsParsed source₁ program₁) (h₂ : IsParsed source₂ program₂)
    (hsource₁ : IsReadable source₁) (hsource₂ : IsReadable source₂)
    (hnode₁ : node₁.IsWithin program₁) (hnode₂ : node₂.IsWithin program₂)
    (hrender₁ : node₁.render depth₁ = .ok text₁) (hrender₂ : node₂.render depth₂ = .ok text₂) :
    text₁ = text₂ ↔ node₁.relocate .forget = node₂.relocate .forget := by
  have hbuilt₁ := hnode₁.isBuilt (h₁.isBuilt hsource₁)
  have hbuilt₂ := hnode₂.isBuilt (h₂.isBuilt hsource₂)
  constructor
  · rintro rfl
    exact (hbuilt₁.eq_of_append hbuilt₂ hrender₁ hrender₂ stops_nil stops_nil rfl).1
  · intro hforget
    have hrender : node₂.render depth₁ = .ok text₁ := by
      rw [← Node.render_relocate .forget, ← hforget, Node.render_relocate, hrender₁]
    exact hbuilt₂.text_unique hrender hrender₂

/-- The tokens of a call, with its last argument and what follows it in two places. -/
def callTokens (line column : Int) : List Token :=
  [⟨.identifier, "f", .null, 1, 1, 1⟩, ⟨.leftParen, "(", .null, 1, 2, 1⟩,
    ⟨.number, "1", .number (.ofDecimal 1 0), 1, 3, 1⟩, ⟨.comma, ",", .null, 1, 4, 1⟩,
    ⟨.string, "\"a b\"", .text "a b", line, column + 5, 5⟩,
    ⟨.rightParen, ")", .null, line, column + 6, 1⟩,
    ⟨.semicolon, ";", .null, line, column + 7, 1⟩, ⟨.endOfInput, "", .null, line, column + 7, 0⟩]

/-- The call that these are the tokens of. -/
def callStatement (line column : Int) : Node :=
  .discard (.call (.reference ⟨.identifier, "f", .null, 1, 1, 1⟩)
    ⟨.rightParen, ")", .null, line, column + 6, 1⟩
    [.literal (.number (.ofDecimal 1 0)), .literal (.text "a b")])

/-- A call has the same text with a line break between its arguments. -/
theorem render_eq_iff_forget_eq_call :
    IsParsed "f(1,\"a b\");" [callStatement 1 4] ∧
      IsParsed "f(1,\n  \"a b\");" [callStatement 2 2] ∧
      IsReadable "f(1,\"a b\");" ∧ IsReadable "f(1,\n  \"a b\");" ∧
      (callStatement 1 4).render nestingLimit = .ok "(; (call f 1 \"a b\"))" ∧
      (callStatement 2 2).render nestingLimit = .ok "(; (call f 1 \"a b\"))" ∧
      (callStatement 1 4).relocate .forget = (callStatement 2 2).relocate .forget := by
  have hlex₁ : lex "f(1,\"a b\");" = .ok (callTokens 1 4) := by decide +kernel
  have hlex₂ : lex "f(1,\n  \"a b\");" = .ok (callTokens 2 2) := by decide +kernel
  have hparse (line column : Int) :
      parse (callTokens line column) = .ok [callStatement line column] := rfl
  have hone : (Number.ofDecimal 1 0).exact = .finite false (2 ^ 52) (-52) := by decide +kernel
  have hliterals (line column : Int) :
      ∀ token ∈ callTokens line column, token.literal.IsReadable := by
    simp [callTokens, Constant.IsReadable, hone]
  have hrender₁ : (callStatement 1 4).render nestingLimit = .ok "(; (call f 1 \"a b\"))" := by
    decide +kernel
  have hrender₂ : (callStatement 2 2).render nestingLimit = .ok "(; (call f 1 \"a b\"))" := by
    decide +kernel
  have h₁ : IsParsed "f(1,\"a b\");" [callStatement 1 4] := ⟨_, hlex₁, hparse 1 4⟩
  have h₂ : IsParsed "f(1,\n  \"a b\");" [callStatement 2 2] := ⟨_, hlex₂, hparse 2 2⟩
  have hsource₁ := isReadable_of_lex hlex₁ (hliterals 1 4)
  have hsource₂ := isReadable_of_lex hlex₂ (hliterals 2 2)
  exact ⟨h₁, h₂, hsource₁, hsource₂, hrender₁, hrender₂,
    (render_eq_iff_forget_eq h₁ h₂ hsource₁ hsource₂ (.statement (List.mem_singleton_self _))
      (.statement (List.mem_singleton_self _)) hrender₁ hrender₂).mp rfl⟩

end Script
