import Script.Proofs.Evaluation.Soundness
import Script.Proofs.Grammar.Programs
import Script.Proofs.Token.Munching
import Script.Session.Interpreter

/-!
# Programs of source texts

What comes from a source text is well-formed throughout: its tokens end once, a program that is
parsed from them is a tree of the grammar with these tokens, and interpreting it on a sound machine
leaves a sound machine.

## Main definitions

* `IsParsed` : the program of a source text.
* `Interpreter.Faults` : the fault that interpreting a program comes to.

## Main results

* `endsOnce_of_lex` : the tokens of a source text end once.
* `IsParsed.isStatement` : the program of a source text is a tree of the grammar.
* `Interpreter.interpret_cases` : all that interpreting a program can come to.
-/

namespace Script

/-! ### Tokens of a source -/

theorem IsLexeme.kind_ne_endOfInput {l : Lexeme} (h : IsLexeme l) :
    ∀ meaning ∈ l.meaning, meaning.1 ≠ .endOfInput := by
  have hoperators : ∀ entry ∈ Lexeme.operators, entry.2 ≠ .endOfInput := by decide
  have hkeywords : ∀ entry ∈ Kind.keywords, entry.2 ≠ .endOfInput := by decide
  intro meaning hmeaning
  cases h with
  | operator hmem =>
    cases hmeaning
    exact hoperators _ hmem
  | keyword hmem =>
    cases hmeaning
    exact hkeywords _ hmem
  | _ => cases hmeaning <;> simp

theorem Munches.isLexeme {text rest : List Char} {ls : List Lexeme} (h : Munches text ls rest) :
    ∀ l ∈ ls, IsLexeme l := by
  induction h with
  | done => exact List.forall_mem_nil _
  | take hlongest _ _ ih => exact List.forall_mem_cons.mpr ⟨hlongest.isLexeme, ih⟩

theorem endsOnce_tokensBehind {ls : List Lexeme} (h : ∀ l ∈ ls, IsLexeme l) (read : List Char) :
    EndsOnce (tokensBehind read ls) := by
  induction ls generalizing read with
  | nil => exact ⟨[], _, rfl, rfl, List.forall_mem_nil _⟩
  | cons l ls ih =>
    rw [List.forall_mem_cons] at h
    obtain ⟨body, mark, htokens, hmark, hbody⟩ := ih h.2 (read ++ l.text)
    have hkind := h.1.kind_ne_endOfInput
    rw [tokensBehind, htokens, ← List.append_assoc]
    refine ⟨_, mark, rfl, hmark, List.forall_mem_append.mpr ⟨fun token htoken => ?_, hbody⟩⟩
    obtain ⟨meaning, hmeaning, rfl⟩ := Option.map_eq_some_iff.mp (Option.mem_toList.mp htoken)
    exact hkind meaning hmeaning

/-- The tokens of a source text end once. -/
theorem endsOnce_of_lex {source : String} {tokens : List Token} (h : lex source = .ok tokens) :
    EndsOnce tokens := by
  obtain ⟨ls, hmunches, rfl⟩ := munches_of_lex h
  exact endsOnce_tokensBehind hmunches.isLexeme []

/-- All tokens but the last are those that are no mark of the end. -/
theorem EndsOnce.filter_eq_dropLast {tokens : List Token} (h : EndsOnce tokens) :
    tokens.filter (·.kind ≠ .endOfInput) = tokens.dropLast := by
  obtain ⟨body, mark, rfl, hmark, hbody⟩ := h
  have hkept : body.filter (·.kind ≠ .endOfInput) = body :=
    List.filter_eq_self.mpr fun token htoken => decide_eq_true (hbody token htoken)
  rw [List.filter_append, hkept, List.dropLast_concat]
  simp [hmark]

/-! ### Programs of a source -/

/-- A token of a source text. -/
def IsLexed (source : String) (token : Token) : Prop :=
  ∃ tokens, lex source = .ok tokens ∧ token ∈ tokens

/-- The program of a source text. -/
def IsParsed (source : String) (program : List Node) : Prop :=
  ∃ tokens, lex source = .ok tokens ∧ parse tokens = .ok program

/-- A source text has at most one program. -/
theorem IsParsed.unique {source : String} {program program' : List Node}
    (h : IsParsed source program) (h' : IsParsed source program') : program = program' := by
  obtain ⟨tokens, hlex, hparse⟩ := h
  obtain ⟨tokens', hlex', hparse'⟩ := h'
  cases hlex.symm.trans hlex'
  exact Except.ok.inj (hparse.symm.trans hparse')

/-- The program of a source text is a tree of the grammar with the tokens of the source. -/
theorem IsParsed.isStatement {source : String} {program : List Node} (h : IsParsed source program) :
    ∀ node ∈ program, node.IsStatement (IsLexed source) := by
  obtain ⟨tokens, hlex, hparse⟩ := h
  obtain ⟨mark, -, hderives⟩ := isProgram_of_parse (endsOnce_of_lex hlex) hparse
  exact hderives.wellFormed fun token htoken => ⟨tokens, hlex, htoken⟩

/-! ### Interpreting -/

namespace Interpreter

variable {isOf : Token → Prop}

/-- Interpreting a program on a machine comes to a fault: its first statement is at fault, or ends
normally and leaves a machine on which interpreting the others comes to the fault. -/
inductive Faults (fuel : Nat) : List Node → Machine → RuntimeFault → Prop
  | here {statement : Node} {rest : List Node} {m m' : Machine} {f : RuntimeFault}
      (hfault : execute fuel statement m = .error (.fault f) m') :
      Faults fuel (statement :: rest) m f
  | later {statement : Node} {rest : List Node} {m m' : Machine} {f : RuntimeFault}
      (hrun : execute fuel statement m = .ok none m') (hrest : Faults fuel rest m' f) :
      Faults fuel (statement :: rest) m f

/-- A fault is reported, and ends the program. -/
theorem Faults.interpret {fuel : Nat} {program : List Node} {m : Machine} {f : RuntimeFault}
    (h : Faults fuel program m f) (r : Reporter) :
    ∃ m' : Machine, interpret fuel program ⟨m, r⟩ = .ok false ⟨m', r.report f.problem⟩ := by
  induction h with
  | @here _ _ _ m' _ hfault =>
    refine ⟨m', ?_⟩
    rw [Interpreter.interpret]
    simp only [hfault]
  | later hrun _ ih =>
    obtain ⟨m', hinterpret⟩ := ih
    refine ⟨m', ?_⟩
    rw [Interpreter.interpret]
    simp only [hrun, hinterpret]

/-- A program on a sound machine is at fault at one of the tokens that its tree and the functions of
the machine were built from. -/
theorem Faults.isOf_token {fuel : Nat} {program : List Node} {m : Machine} {f : RuntimeFault}
    (h : Faults fuel program m f) (hprogram : ∀ node ∈ program, node.IsStatement isOf)
    (hm : m.IsSound isOf) : isOf f.token := by
  induction h with
  | @here _ _ m _ _ hfault =>
    have hrun := isSound_execute fuel (hprogram _ List.mem_cons_self) m hm
    rw [hfault] at hrun
    exact hrun.2
  | @later _ _ m _ _ hexecute _ ih =>
    rw [List.forall_mem_cons] at hprogram
    have hrun := isSound_execute fuel hprogram.1 m hm
    rw [hexecute] at hrun
    exact ih hprogram.2 hrun.1

/-- All that interpreting a program can come to. The machine stays sound, and the reporter is left
alone unless a stray return is warned about or a fault is reported. -/
theorem interpret_cases {program : List Node} (hprogram : ∀ node ∈ program, node.IsStatement isOf)
    (fuel : Nat) {i : Interpreter} (hi : i.machine.IsSound isOf) :
    ∃ m : Machine, m.IsSound isOf ∧
      (interpret fuel program i = .ok true ⟨m, i.reporter⟩ ∨
        (∃ keyword, interpret fuel program i =
          .ok true ⟨m, i.reporter.warn (strayReturn keyword)⟩) ∨
        (∃ f, Faults fuel program i.machine f ∧
          interpret fuel program i = .ok false ⟨m, i.reporter.report f.problem⟩) ∨
        ∃ escape, (escape = .breakdown .tooDeep ∨ escape = .unfinished) ∧
          interpret fuel program i = .error escape ⟨m, i.reporter⟩) := by
  induction program generalizing i with
  | nil => exact ⟨i.machine, hi, .inl rfl⟩
  | cons statement program ih =>
    rw [List.forall_mem_cons] at hprogram
    have hrun := isSound_execute fuel hprogram.1 i.machine hi
    simp only [interpret]
    cases hresult : execute fuel statement i.machine with
    | ok returning m =>
      rw [hresult] at hrun
      cases returning with
      | none =>
        obtain ⟨m', hm', hcases⟩ := ih hprogram.2 (i := ⟨m, i.reporter⟩) hrun.1
        refine ⟨m', hm', hcases.imp_right (Or.imp_right (Or.imp_left ?_))⟩
        rintro ⟨f, hfaults, hinterpret⟩
        exact ⟨f, .later hresult hfaults, hinterpret⟩
      | some returning => exact ⟨m, hrun.1, .inr (.inl ⟨returning.keyword, rfl⟩)⟩
    | error halt m =>
      rw [hresult] at hrun
      obtain ⟨hm, hhalt⟩ := hrun
      refine ⟨m, hm, .inr (.inr ?_)⟩
      cases halt with
      | fault f => exact .inl ⟨f, .here hresult, rfl⟩
      | breakdown b =>
        cases hhalt
        exact .inr ⟨_, .inl rfl, rfl⟩
      | unfinished => exact .inr ⟨_, .inr rfl, rfl⟩

theorem isSound_of_interpret_ok {program : List Node}
    (hprogram : ∀ node ∈ program, node.IsStatement isOf) {fuel : Nat} {i i' : Interpreter}
    (hi : i.machine.IsSound isOf) {ok : Bool} (hrun : interpret fuel program i = .ok ok i') :
    i'.machine.IsSound isOf := by
  obtain ⟨m, hm, h | ⟨_, h⟩ | ⟨_, _, h⟩ | ⟨_, _, h⟩⟩ :=
    interpret_cases hprogram fuel hi
  all_goals
    rw [hrun] at h
    cases h
  all_goals exact hm

theorem isSound_of_interpret_error {program : List Node}
    (hprogram : ∀ node ∈ program, node.IsStatement isOf) {fuel : Nat} {i i' : Interpreter}
    (hi : i.machine.IsSound isOf) {escape : Escape}
    (hrun : interpret fuel program i = .error escape i') :
    i'.machine.IsSound isOf ∧ (escape = .breakdown .tooDeep ∨ escape = .unfinished) := by
  obtain ⟨m, hm, h | ⟨_, h⟩ | ⟨_, _, h⟩ | ⟨_, hescape, h⟩⟩ :=
    interpret_cases hprogram fuel hi
  all_goals
    rw [hrun] at h
    cases h
  exact ⟨hm, hescape⟩

end Interpreter

end Script
