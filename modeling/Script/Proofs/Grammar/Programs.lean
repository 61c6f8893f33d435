import Script.Proofs.Grammar.Completeness

/-!
# Programs and their tokens

A list of tokens that ends once is a program exactly if it has a derivation, and it then has one
tree. Parsing gives that tree, or reports faults if there is none, unless the nesting exceeds the
limit.

The depth is the only obstacle: a program is read at every depth that is large enough. That gives
the uniqueness of its tree, also for programs that nest too deeply to be parsed.

## Main results

* `parse_iff_isProgram` : what parsing accepts and what it gives.
* `parse_ne_breakdown` : tokens with an end break down only by depth.
-/

namespace Script

open Parsing Rule

/-! ### Skipping a faulty statement -/

theorem reads_of_skipFrom {previous : Kind} {tokens rest : List Token}
    (h : skipFrom previous tokens = some rest) : Reads tokens rest := by
  induction tokens generalizing previous with
  | nil => cases h
  | cons token tokens ih =>
    rw [skipFrom] at h
    split at h
    · cases h
      exact .refl _
    · next hgo => exact .step (fun heq => hgo (.inl heq)) (ih h)

theorem not_ended_of_skipFrom {previous : Kind} {tokens : List Token}
    (h : skipFrom previous tokens = none) : ¬Ended tokens := by
  induction tokens generalizing previous with
  | nil => simp [Ended]
  | cons token tokens ih =>
    rw [skipFrom] at h
    split at h
    · cases h
    · next hgo =>
      have hkind : token.kind ≠ .endOfInput := fun heq => hgo (.inl heq)
      rw [(Reads.step hkind (.refl tokens)).ended_iff]
      exact ih h

/-- Recovering from a fault reads at least one token, unless the input ends there. -/
theorem reads_of_resynchronize {tokens rest : List Token} (h : resynchronize tokens = some rest) :
    Reads tokens rest ∧ (StartsWith [.endOfInput] tokens ∨ rest.length < tokens.length) := by
  cases tokens with
  | nil => cases h
  | cons token tokens =>
    rw [resynchronize] at h
    split at h
    · next hkind =>
      cases h
      exact ⟨.refl _, .inl (startsWith_cons.mpr (List.mem_singleton.mpr hkind))⟩
    · next hkind =>
      have hreads := reads_of_skipFrom h
      exact ⟨.step hkind hreads, .inr (Nat.lt_succ_of_le hreads.length_le)⟩

theorem not_ended_of_resynchronize {tokens : List Token} (h : resynchronize tokens = none) :
    ¬Ended tokens := by
  cases tokens with
  | nil => simp [Ended]
  | cons token tokens =>
    rw [resynchronize] at h
    split at h
    · cases h
    · next hkind =>
      rw [(Reads.step hkind (.refl tokens)).ended_iff]
      exact not_ended_of_skipFrom h

/-- Reading from a token that is no mark to one that is reads something. -/
theorem Reads.length_lt {token : Token} {rest after : List Token} (h : Reads (token :: rest) after)
    (hkind : token.kind ≠ .endOfInput) (hafter : StartsWith [.endOfInput] after) :
    after.length < (token :: rest).length := by
  cases h with
  | refl => exact absurd (List.mem_singleton.mp (startsWith_cons.mp hafter)) hkind
  | step _ h => exact Nat.lt_succ_of_le h.length_le

/-! ### Declarations -/

/-- What reading declarations guarantees: without faults there is a derivation up to the end of the
input, and a breakdown is one of depth if there is such an end. -/
theorem sound_parseDeclarations (depth : Nat) (bound tokens : List Token)
    (hbound : tokens.length ≤ bound.length) :
    match parseDeclarations depth bound tokens with
    | .ok (nodes, faults) => faults = [] → ∃ mark rest, mark.kind = .endOfInput ∧
        Reads tokens (mark :: rest) ∧ Writes (.declarations nodes) tokens (mark :: rest)
    | .error b => b = .tooDeep ∨ b = .tokensExhausted ∧ ¬Ended tokens := by
  induction bound generalizing tokens with
  | nil =>
    rw [List.length_nil, Nat.le_zero, List.length_eq_zero_iff] at hbound
    subst hbound
    exact .inr ⟨rfl, by simp [Ended]⟩
  | cons _ bound ih =>
    cases tokens with
    | nil => exact .inr ⟨rfl, by simp [Ended]⟩
    | cons token rest =>
      have hsound := sound_parseWithin depth .declaration (token :: rest) (.refl _)
      rw [List.length_cons, List.length_cons] at hbound
      rw [parseDeclarations]
      by_cases hkind : token.kind = .endOfInput
      · rw [if_pos hkind]
        exact fun _ => ⟨token, rest, hkind, .refl _, .noDeclarations⟩
      · rw [if_neg hkind]
        cases hrun : parseWithin depth .declaration (token :: rest) with
        | ok node mid =>
          rw [hrun] at hsound
          obtain ⟨hreads, isOpen, hnode⟩ := hsound
          have hlength := hnode.length_add_le
          simp only [Phrase.minLength, List.length_cons] at hlength
          have hrest := ih mid (by omega)
          dsimp only
          cases hmore : parseDeclarations depth bound mid with
          | ok result =>
            rw [hmore] at hrest
            intro hfaults
            obtain ⟨mark, last, hmark, hmore, hnodes⟩ := hrest hfaults
            exact ⟨mark, last, hmark, hreads.trans hmore, .moreDeclarations hnode hnodes⟩
          | error b =>
            rw [hmore] at hrest
            exact hrest.imp_right fun h => ⟨h.1, mt hreads.ended_iff.mp h.2⟩
        | error halt mid =>
          rw [hrun] at hsound
          cases halt with
          | breakdown b => exact hsound
          | fault fault =>
            obtain ⟨last, hto, hfrom⟩ := hsound
            have hreads := hto.trans hfrom
            dsimp only
            cases hsync : resynchronize mid with
            | none => exact .inr ⟨rfl, mt hreads.ended_iff.mp (not_ended_of_resynchronize hsync)⟩
            | some next =>
              obtain ⟨hnext, hprogress⟩ := reads_of_resynchronize hsync
              have hlength : next.length < (token :: rest).length := by
                rcases hprogress with hmark | hless
                · exact Nat.lt_of_le_of_lt hnext.length_le (hreads.length_lt hkind hmark)
                · exact Nat.lt_of_lt_of_le hless hreads.length_le
              rw [List.length_cons] at hlength
              have hrest := ih next (by omega)
              dsimp only
              cases hmore : parseDeclarations depth bound next with
              | ok result => exact fun h => by cases h
              | error b =>
                rw [hmore] at hrest
                exact hrest.imp_right fun h => ⟨h.1, mt (hreads.trans hnext).ended_iff.mp h.2⟩

/-- Declarations with a derivation up to the end of the input are read from some depth on, and below
it nothing but the depth is in the way. -/
theorem complete_parseDeclarations {nodes : List Node} {bound tokens rest : List Token}
    {mark : Token} (hmark : mark.kind = .endOfInput)
    (h : Writes (.declarations nodes) tokens (mark :: rest))
    (hbound : tokens.length ≤ bound.length) :
    ∃ limit, ∀ depth, parseDeclarations depth bound tokens = .ok (nodes, []) ∨
      depth < limit ∧ parseDeclarations depth bound tokens = .error .tooDeep := by
  induction nodes generalizing bound tokens with
  | nil =>
    cases h
    cases bound with
    | nil => cases hbound
    | cons _ bound => exact ⟨0, fun depth => .inl (by rw [parseDeclarations, if_pos hmark])⟩
  | cons node nodes ih =>
    cases h with
    | moreDeclarations hfirst hrest =>
      rename_i isOpen mid
      obtain ⟨token, tail, rfl, hstart⟩ := hfirst.starts
      have hkind : token.kind ≠ .endOfInput := by
        intro heq
        rw [heq] at hstart
        revert hstart
        decide
      have hlength := hfirst.length_add_le
      simp only [Phrase.minLength, List.length_cons] at hlength
      have hend : StartsWith [.rightBrace, .endOfInput] (mark :: rest) := by simp [hmark]
      obtain ⟨limit, hyields⟩ := hfirst.parsed (hrest.declarations_stop hend isOpen)
      dsimp only at hyields
      cases bound with
      | nil => cases hbound
      | cons _ bound =>
        rw [List.length_cons, List.length_cons] at hbound
        have hless : mid.length ≤ bound.length := by omega
        obtain ⟨limit', hmore⟩ := ih hrest hless
        refine ⟨max limit limit', fun depth => ?_⟩
        rw [parseDeclarations, if_neg hkind]
        obtain hrun | ⟨hdepth, last, hrun⟩ := hyields depth
        · rw [hrun]
          obtain hrun' | ⟨hdepth, hrun'⟩ := hmore depth
          · exact .inl (by simp only [hrun']; rfl)
          · exact .inr ⟨by omega, by simp only [hrun']; rfl⟩
        · rw [hrun]
          exact .inr ⟨by omega, rfl⟩

/-! ### Programs -/

/-- The only mark of the end of the input is the last token. -/
def EndsOnce (tokens : List Token) : Prop :=
  ∃ body mark, tokens = body ++ [mark] ∧ mark.kind = .endOfInput ∧
    ∀ token ∈ body, token.kind ≠ .endOfInput

theorem EndsOnce.ended {tokens : List Token} (h : EndsOnce tokens) : Ended tokens := by
  obtain ⟨body, mark, rfl, hmark, -⟩ := h
  exact ⟨mark, by simp, hmark⟩

/-- Reading up to a mark of the end reads all that stands before the last token. -/
theorem EndsOnce.eq_nil_of_reads {tokens rest : List Token} {mark : Token} (h : EndsOnce tokens)
    (hreads : Reads tokens (mark :: rest)) (hmark : mark.kind = .endOfInput) : rest = [] := by
  obtain ⟨body, last, rfl, hlast, hbody⟩ := h
  induction body with
  | nil =>
    cases hreads with
    | refl => rfl
    | step hkind => exact absurd hlast hkind
  | cons token body ih =>
    cases hreads with
    | refl => exact absurd hmark (hbody mark (by simp))
    | step _ hreads => exact ih hreads fun token htoken => hbody token (by simp [htoken])

/-- Tokens that end break down only by depth. -/
theorem parse_ne_breakdown {tokens : List Token} (h : Ended tokens) {b : Breakdown}
    (hparse : parse tokens = .error (.breakdown b)) : b = .tooDeep := by
  have hsound := sound_parseDeclarations nestingLimit tokens tokens (Nat.le_refl _)
  rw [parse] at hparse
  cases hrun : parseDeclarations nestingLimit tokens tokens with
  | ok result =>
    obtain ⟨nodes, faults⟩ := result
    rw [hrun] at hparse
    cases faults <;> cases hparse
  | error b' =>
    rw [hrun] at hparse hsound
    cases hparse
    exact hsound.resolve_right fun hnot => hnot.2 h

theorem isProgram_of_parse {tokens : List Token} (h : EndsOnce tokens) {program : List Node}
    (hparse : parse tokens = .ok program) : IsProgram (some .varWord) tokens program := by
  have hsound := sound_parseDeclarations nestingLimit tokens tokens (Nat.le_refl _)
  rw [parse] at hparse
  cases hrun : parseDeclarations nestingLimit tokens tokens with
  | error b =>
    rw [hrun] at hparse
    cases hparse
  | ok result =>
    obtain ⟨nodes, faults⟩ := result
    rw [hrun] at hparse hsound
    cases faults with
    | cons first others => cases hparse
    | nil =>
      cases hparse
      obtain ⟨mark, rest, hmark, hreads, hprogram⟩ := hsound rfl
      cases h.eq_nil_of_reads hreads hmark
      exact ⟨mark, hmark, hprogram⟩

/-- A program is read from some depth on. -/
theorem IsProgram.parseDeclarations {tokens : List Token} {program : List Node}
    (h : IsProgram (some .varWord) tokens program) :
    ∃ limit, ∀ depth, parseDeclarations depth tokens tokens = .ok (program, []) ∨
      depth < limit ∧ parseDeclarations depth tokens tokens = .error .tooDeep := by
  obtain ⟨mark, hmark, hprogram⟩ := h
  exact complete_parseDeclarations hmark hprogram (Nat.le_refl _)

theorem IsProgram.parse {tokens : List Token} {program : List Node}
    (h : IsProgram (some .varWord) tokens program) :
    parse tokens = .ok program ∨ parse tokens = .error (.breakdown .tooDeep) := by
  obtain ⟨limit, hread⟩ := h.parseDeclarations
  refine (hread nestingLimit).imp (fun hrun => ?_) fun hrun => ?_
  · rw [Script.parse, hrun]
  · rw [Script.parse, hrun.2]

/-- No two trees belong to one program, for at a sufficient depth both would be read. -/
theorem IsProgram.unique {tokens : List Token} {program program' : List Node}
    (h : IsProgram (some .varWord) tokens program)
    (h' : IsProgram (some .varWord) tokens program') : program = program' := by
  obtain ⟨limit, hread⟩ := h.parseDeclarations
  obtain ⟨limit', hread'⟩ := h'.parseDeclarations
  have hrun := (hread (max limit limit')).resolve_right fun hless =>
    Nat.not_lt_of_le (Nat.le_max_left _ _) hless.1
  have hrun' := (hread' (max limit limit')).resolve_right fun hless =>
    Nat.not_lt_of_le (Nat.le_max_right _ _) hless.1
  rw [hrun] at hrun'
  cases hrun'
  rfl

/-- Parsing gives a tree exactly if the tokens have a derivation with that tree, and reports faults
if they have none, unless the nesting is too deep to tell. No tokens have two trees, and every
program is read if the nesting may be deep enough. -/
theorem parse_iff_isProgram {tokens : List Token} (h : EndsOnce tokens) :
    (parse tokens = .error (.breakdown .tooDeep) ∨
      (∀ program, parse tokens = .ok program ↔ IsProgram (some .varWord) tokens program) ∧
        ((¬∃ program, IsProgram (some .varWord) tokens program) →
          ∃ first others, parse tokens = .error (.rejected first others))) ∧
    (∀ program program', IsProgram (some .varWord) tokens program →
      IsProgram (some .varWord) tokens program' → program = program') ∧
    ∀ program, IsProgram (some .varWord) tokens program →
      ∃ limit, ∀ depth, limit ≤ depth →
        parseDeclarations depth tokens tokens = .ok (program, []) := by
  refine ⟨?_, fun _ _ => IsProgram.unique, fun program hprogram => ?_⟩
  · by_cases hdeep : parse tokens = .error (.breakdown .tooDeep)
    · exact .inl hdeep
    · refine .inr ⟨fun program => ?_, fun hnone => ?_⟩
      · exact ⟨isProgram_of_parse h, fun hprogram => hprogram.parse.resolve_right hdeep⟩
      · cases hparse : parse tokens with
        | ok program => exact absurd ⟨program, isProgram_of_parse h hparse⟩ hnone
        | error failure =>
          cases failure with
          | rejected first others => exact ⟨first, others, rfl⟩
          | breakdown b =>
            cases parse_ne_breakdown h.ended hparse
            exact absurd hparse hdeep
  · obtain ⟨limit, hread⟩ := hprogram.parseDeclarations
    exact ⟨limit, fun depth hdepth =>
      (hread depth).resolve_right fun hless => Nat.not_lt_of_le hdepth hless.1⟩

/-- The tokens of `if (a) if (b) c; else d`. The `else` could belong to either `if`, and the last
semicolon is missing. -/
def danglingElseTokens : List Token :=
  [⟨.ifWord, "if", .null, 1, 2, 2⟩, ⟨.leftParen, "(", .null, 1, 4, 1⟩,
    ⟨.identifier, "a", .null, 1, 5, 1⟩, ⟨.rightParen, ")", .null, 1, 6, 1⟩,
    ⟨.ifWord, "if", .null, 1, 9, 2⟩, ⟨.leftParen, "(", .null, 1, 11, 1⟩,
    ⟨.identifier, "b", .null, 1, 12, 1⟩, ⟨.rightParen, ")", .null, 1, 13, 1⟩,
    ⟨.identifier, "c", .null, 1, 15, 1⟩, ⟨.semicolon, ";", .null, 1, 16, 1⟩,
    ⟨.elseWord, "else", .null, 1, 21, 4⟩, ⟨.identifier, "d", .null, 1, 23, 1⟩,
    ⟨.endOfInput, "", .null, 1, 23, 0⟩]

/-- The `else` belongs to the second `if`, in the one tree that the tokens have. -/
theorem isProgram_danglingElse :
    EndsOnce danglingElseTokens ∧ ∃ a b c d : Token,
      (parse danglingElseTokens = .ok [.branch (.reference a)
        (.branch (.reference b) (.discard (.reference c)) (some (.discard (.reference d)))) none]) ∧
      ∀ program, IsProgram (some .varWord) danglingElseTokens program ↔
        program = [.branch (.reference a)
          (.branch (.reference b) (.discard (.reference c)) (some (.discard (.reference d))))
          none] := by
  have hends : EndsOnce danglingElseTokens := ⟨danglingElseTokens.dropLast, _, rfl, rfl, by decide⟩
  obtain ⟨hdeep | ⟨hparse, -⟩, hunique, -⟩ := parse_iff_isProgram hends
  · cases hdeep
  · refine ⟨hends, _, _, _, _, rfl, fun program => ⟨fun h => ?_, fun h => ?_⟩⟩
    · exact hunique _ _ h ((hparse _).mp rfl)
    · exact h ▸ (hparse _).mp rfl

/-! ### The short form of the grammar

The short form writes the first clause of a counting loop without its keyword. It lacks the counting
loops that the language has. -/

theorem not_derives_none_initial {node : Option Node} {word : Token} {rest after : List Token}
    (hword : word.kind = .varWord) : ¬Derives none (.initial node) (word :: rest) after := by
  intro h
  cases h with
  | noInitial hsemicolon =>
    rw [hword] at hsemicolon
    cases hsemicolon
  | variableInitial hmarked hitem =>
    cases hmarked
    exact absurd (startsWith_cons.mp hitem.starts) (by rw [hword]; decide)
  | discardInitial hdiscard =>
    exact absurd (startsWith_cons.mp hdiscard.starts) (by rw [hword]; decide)

/-- A statement that starts with `for` has a first clause behind its parenthesis. -/
theorem Derives.initial_of_forWord {keyword : Option Kind} {isOpen : Bool} {node : Node}
    {word opening : Token} {rest after : List Token} (hword : word.kind = .forWord)
    (h : Derives keyword (.statement isOpen node) (word :: opening :: rest) after) :
    ∃ initial clauses, Derives keyword (.initial initial) rest clauses := by
  cases h with
  | forStatement _ _ hinitial => exact ⟨_, _, hinitial⟩
  | blockStatement hblock =>
    exact absurd (startsWith_cons.mp hblock.starts) (by rw [hword]; decide)
  | discardStatement hdiscard =>
    exact absurd (startsWith_cons.mp hdiscard.starts) (by rw [hword]; decide)
  | returnStatement hother | whileStatement hother | ifStatement hother | ifElseStatement hother =>
    rw [hword] at hother
    cases hother

/-- No program of the short form starts with a loop that declares its counter. -/
theorem not_isProgram_none {word opening keyword : Token} {rest : List Token}
    (hword : word.kind = .forWord) (hkeyword : keyword.kind = .varWord) (program : List Node) :
    ¬IsProgram none (word :: opening :: keyword :: rest) program := by
  rintro ⟨mark, -, h⟩
  cases h with
  | moreDeclarations hfirst =>
    cases hfirst with
    | functionDeclaration hother | variableDeclaration hother =>
      rw [hword] at hother
      cases hother
    | statementDeclaration hstatement =>
      obtain ⟨initial, clauses, hinitial⟩ := hstatement.initial_of_forWord hword
      exact not_derives_none_initial hkeyword hinitial

/-- The tokens of `for (var i = 0; ; ) i;`. -/
def countingLoopTokens : List Token :=
  [⟨.forWord, "for", .null, 1, 3, 3⟩, ⟨.leftParen, "(", .null, 1, 5, 1⟩,
    ⟨.varWord, "var", .null, 1, 8, 3⟩, ⟨.identifier, "i", .null, 1, 10, 1⟩,
    ⟨.equal, "=", .null, 1, 12, 1⟩, ⟨.number, "0", .number (Number.ofDecimal 0 0), 1, 14, 1⟩,
    ⟨.semicolon, ";", .null, 1, 15, 1⟩, ⟨.semicolon, ";", .null, 1, 17, 1⟩,
    ⟨.rightParen, ")", .null, 1, 19, 1⟩, ⟨.identifier, "i", .null, 1, 21, 1⟩,
    ⟨.semicolon, ";", .null, 1, 22, 1⟩, ⟨.endOfInput, "", .null, 1, 22, 0⟩]

/-- Parsing is not described by the short form: it accepts tokens that have no derivation there. -/
theorem parse_not_iff_isProgram_none :
    EndsOnce countingLoopTokens ∧ (∃ program, parse countingLoopTokens = .ok program) ∧
      ¬∃ program, IsProgram none countingLoopTokens program :=
  ⟨⟨countingLoopTokens.dropLast, _, rfl, rfl, by decide⟩, ⟨_, rfl⟩,
    fun ⟨program, h⟩ => not_isProgram_none rfl rfl program h⟩

end Script
