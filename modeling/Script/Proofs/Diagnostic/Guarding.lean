import Script.Proofs.Diagnostic.Serving
import Script.Proofs.Diagnostic.Templates

/-!
# What a guard promises

A guard lets a request to leave pass. Of any other escape it tells, and counts what it tells. Then a
fatal guard leaves, and another one forgets its sources; what was planned for ends there, and a
failure that nobody planned for goes on. Such a failure is told by its sort and its words.

The words of a failure are read as a template on the way, so the promise is kept if and only if no
brace is in them. With a brace, either the template is at fault, which escapes in place of the
failure and leaves it untold, or doubled braces are told as single ones.

## Main definitions

* `Escape.told` : the diagnostics that are to be told of an escape.
* `Reporter.promised` : what a guard is to make of an escape.

## Main results

* `Template.fill_nil_eq_ok_iff` : what is read from a template without snippets.
* `Reporter.guard_eq_promised_iff` : the failures for which a guard keeps its promise.
-/

namespace Script

/-! ### Templates without snippets -/

namespace Template

theorem length_doubled (text : List Char) :
    (doubled text).length =
      text.length + text.countP fun c => decide (c = '\x7b' ∨ c = '\x7d') := by
  induction text with
  | nil => rfl
  | cons c text ih =>
    rw [doubled, List.flatMap_cons, ← doubled, List.length_append, ih, List.countP_cons,
      List.length_cons]
    by_cases hc : c = '\x7b' ∨ c = '\x7d'
    · simp only [hc, if_true, decide_true, List.length_cons, List.length_nil]
      omega
    · simp only [hc, if_false, decide_false, Bool.false_eq_true, List.length_cons, List.length_nil]
      omega

/-- Doubling braces changes a text unless there are none. -/
theorem doubled_eq_self_iff {text : List Char} :
    doubled text = text ↔ ∀ c ∈ text, c ≠ '\x7b' ∧ c ≠ '\x7d' := by
  constructor
  · intro h c hc
    have hlength := length_doubled text
    rw [h, Nat.left_eq_add, List.countP_eq_zero] at hlength
    simpa [not_or] using hlength c hc
  · intro h
    induction text with
    | nil => rfl
    | cons c text ih =>
      obtain ⟨hc, htext⟩ := List.forall_mem_cons.mp h
      rw [doubled, List.flatMap_cons, ← doubled, ih htext, if_neg (by simp [hc])]
      rfl

/-- Without snippets no slot can be filled, so what is read has all its braces doubled. -/
theorem exists_doubled_of_fillFrom_nil {choice : Choice} {words template : List Char}
    {pieces : List Piece} (h : fillFrom [] choice words template = .ok pieces) :
    ∃ text, doubled text = template ∧
      pieces = [.words (String.ofList (words.reverse ++ text))] := by
  fun_induction fillFrom [] choice words template with
  | case1 choice words =>
    cases h
    exact ⟨[], rfl, by rw [List.append_nil]⟩
  | case2 choice words rest ih =>
    obtain ⟨text, rfl, rfl⟩ := ih h
    exact ⟨'\x7b' :: text, rfl, by simp⟩
  | case3 choice words rest ih =>
    obtain ⟨text, rfl, rfl⟩ := ih h
    exact ⟨'\x7d' :: text, rfl, by simp⟩
  | case4 => cases h
  | case5 => cases h
  | case6 => cases h
  | case7 choice words slot _ _ name rest hread ih =>
    cases hindex : choice.index name <;>
      simp [hindex, Bind.bind, Except.bind, throw, throwThe, MonadExceptOf.throw] at h
  | case8 choice words c rest _ _ hclose _ hopen ih =>
    obtain ⟨text, rfl, rfl⟩ := ih h
    have hc : ¬(c = '\x7b' ∨ c = '\x7d') := not_or.mpr ⟨hopen, hclose⟩
    refine ⟨c :: text, ?_, by simp⟩
    rw [doubled, List.flatMap_cons, if_neg hc]
    rfl

/-- Without snippets the first empty slot is at fault. -/
theorem fill_nil_of_slot {template : String} (front rest : List Char)
    (h : doubled front ++ '\x7b' :: '\x7d' :: rest = template.toList) :
    fill template [] = .error (.missing 0) := by
  have hread : Slot.read ('\x7d' :: rest) = .ok ([], rest) := rfl
  have hslot : fillFrom [] .undecided (front.reverse ++ []) ('\x7b' :: '\x7d' :: rest) =
      .error (.missing 0) := by
    rw [fillFrom]
    · split
      · next hslot =>
        rw [hread] at hslot
        cases hslot
      · next hslot =>
        rw [hread] at hslot
        cases hslot
        rfl
    all_goals simp
  rw [fill, ← h, fillFrom_doubled, hslot]
  rfl

/-- A template is filled without snippets if it is a text with every brace doubled, and the text is
the message. -/
theorem fill_nil_eq_ok_iff {template : String} {message : Message} :
    fill template [] = .ok message ↔
      ∃ text, doubled text = template.toList ∧ message = .ofText (String.ofList text) := by
  constructor
  · intro h
    rw [fill] at h
    cases hfill : fillFrom [] .undecided [] template.toList with
    | error fault =>
      rw [hfill] at h
      cases h
    | ok pieces =>
      rw [hfill] at h
      cases h
      obtain ⟨text, htext, rfl⟩ := exists_doubled_of_fillFrom_nil hfill
      exact ⟨text, htext, rfl⟩
  · rintro ⟨text, htext, rfl⟩
    rw [fill, ← htext, ← List.append_nil (doubled text), fillFrom_doubled, List.append_nil,
      fillFrom, List.reverse_reverse]
    rfl

end Template

/-! ### What is to be told -/

/-- The words for a failure that nobody planned for. -/
def Failure.words (f : Failure) : String :=
  "unknown error: '" ++ f.sort ++ ": " ++ f.text ++ "'"

/-- A failure without a brace in its sort and its text. -/
def Failure.IsPlain (f : Failure) : Prop :=
  ∀ c ∈ f.sort.toList ++ f.text.toList, c ≠ '\x7b' ∧ c ≠ '\x7d'

/-- The diagnostic of a failure that nobody planned for, told in some words. -/
def Diagnostic.unplanned (words : String) : Diagnostic :=
  { Diagnostic.placeless (.ofText words) with internal := true }

/-- The diagnostics that are to be told of an escape. -/
def Escape.told : Escape → List Diagnostic
  | .exit _ | .unfinished => []
  | .interrupt => [.placeless (.ofText "keyboard interrupt")]
  | .problem p => p.chain
  | .breakdown .tooDeep =>
    [{ Diagnostic.placeless (.ofText "maximum recursion depth exceeded") with shown := false }]
  | escape => escape.failure?.toList.map fun f => .unplanned f.words

namespace Reporter

/-- Some diagnostics are told and counted. Then a fatal reporter leaves, and another forgets its
sources and goes on with an escape if there is one. -/
def telling (r : Reporter) (told : List Diagnostic) (escape : Option Escape) :
    EStateM.Result Escape Reporter Unit :=
  let r := { r with reported := r.reported + told.length, log := (told.foldl reportOne r).log }
  if r.fatal then .error (.exit (some 1)) r
  else
    let r := { r with sources := r.sources.map fun entry => (entry.1, none) }
    match escape with
    | none => .ok () r
    | some escape => .error escape r

/-- What a guard is to make of an escape: a request to leave passes, any other escape is told, and
a failure that nobody planned for goes on. -/
def promised (r : Reporter) (escape : Escape) : EStateM.Result Escape Reporter Unit :=
  match escape with
  | .exit _ | .unfinished => .error escape r
  | _ => r.telling escape.told (escape.failure?.map fun _ => escape)

variable {r : Reporter} {escape : Escape}

theorem settle_eq_telling (p : Problem) (r : Reporter) : settle p r = r.telling p.chain none := by
  obtain ⟨log, htold⟩ := foldl_reportOne_eq p.chain r
  simp only [settle, report, telling, htold, forgetAll]

theorem failureProblem_of_fill_error {f : Failure} {fault : Template.Fault}
    (h : Template.fill f.words [] = .error fault) : failureProblem f = .error fault := by
  have hwords : s!"unknown error: '{f.sort}: {f.text}'" = f.words := rfl
  rw [failureProblem, hwords, h]
  rfl

theorem failureProblem_of_fill_ok {f : Failure} {text : String}
    (h : Template.fill f.words [] = .ok (.ofText text)) :
    failureProblem f = .ok (.general (.unplanned text)) := by
  have hwords : s!"unknown error: '{f.sort}: {f.text}'" = f.words := rfl
  rw [failureProblem, hwords, h]
  rfl

theorem failureProblem_eq_ok_iff {f : Failure} {p : Problem} :
    failureProblem f = .ok p ↔
      ∃ text, Template.doubled text = f.words.toList ∧
        p = .general (.unplanned (String.ofList text)) := by
  constructor
  · intro h
    cases hfill : Template.fill f.words [] with
    | error fault => cases h.symm.trans (failureProblem_of_fill_error hfill)
    | ok message =>
      obtain ⟨text, htext, rfl⟩ := Template.fill_nil_eq_ok_iff.mp hfill
      exact ⟨text, htext, Except.ok.inj (h.symm.trans (failureProblem_of_fill_ok hfill))⟩
  · rintro ⟨text, htext, rfl⟩
    exact failureProblem_of_fill_ok (Template.fill_nil_eq_ok_iff.mpr ⟨text, htext, rfl⟩)

/-- The words of a failure are told as they are if and only if it is plain. -/
theorem doubled_words_iff {f : Failure} :
    Template.doubled f.words.toList = f.words.toList ↔ f.IsPlain := by
  have hfront : ∀ c ∈ "unknown error: '".toList, c ≠ '\x7b' ∧ c ≠ '\x7d' := by simp
  have hmiddle : ∀ c ∈ ": ".toList, c ≠ '\x7b' ∧ c ≠ '\x7d' := by simp
  have hback : ∀ c ∈ "'".toList, c ≠ '\x7b' ∧ c ≠ '\x7d' := by simp
  rw [Template.doubled_eq_self_iff]
  unfold Failure.IsPlain Failure.words
  simp only [String.toList_append, List.forall_mem_append]
  constructor
  · rintro ⟨⟨⟨⟨-, hsort⟩, -⟩, htext⟩, -⟩
    exact ⟨hsort, htext⟩
  · rintro ⟨hsort, htext⟩
    exact ⟨⟨⟨⟨hfront, hsort⟩, hmiddle⟩, htext⟩, hback⟩

/-- How a place is named of which no line is known. -/
def place (r : Reporter) : String :=
  match r.sources with
  | [] => ""
  | (path, _) :: _ => r.style.bold none (path ++ ": ")

/-- A failure that nobody planned for is written in one line, with its words as they are. -/
theorem log_unplanned (r : Reporter) (words : String) :
    ([.unplanned words].foldl reportOne r).log =
      r.log ++ (r.place ++ (r.style.bold (some .red) "[internal] " ++
        r.style.bold (some .red) "error: ") ++ words) ++ "\n" := by
  have hheader : r.header (.unplanned words) = (r.place, none) := by
    rw [header, place]
    cases r.sources with
    | nil => rfl
    | cons entry entries =>
      obtain ⟨path, registration⟩ := entry
      cases registration <;> rfl
  have hwords : (Message.ofText words).text r.style = words := by
    simp [Message.text, Message.ofText, Piece.text]
  rw [List.foldl_cons, List.foldl_nil, reportOne, tell, hheader]
  exact congrArg (fun told => r.log ++ (_ ++ told) ++ "\n") hwords

/-- Telling other words writes something else. -/
theorem words_eq_of_telling {words words' : String} {next : Option Escape}
    (h : r.telling [.unplanned words] next = r.telling [.unplanned words'] next) :
    words = words' := by
  have hlog : ([.unplanned words].foldl reportOne r).log =
      ([.unplanned words'].foldl reportOne r).log := by
    cases hfatal : r.fatal <;> cases next <;>
      simp only [telling, hfatal, Bool.false_eq_true, if_true, if_false, EStateM.Result.ok.injEq,
        EStateM.Result.error.injEq, Reporter.mk.injEq, true_and] at h
    all_goals exact h.2
  simpa only [log_unplanned, String.append_assoc, String.append_right_inj,
    String.append_left_inj] using hlog

/-- Whatever is told is counted. -/
theorem telling_ne {told : List Diagnostic} (htold : told ≠ []) (next : Option Escape)
    (other : Escape) : r.telling told next ≠ .error other r := by
  have hlength : r.reported + told.length ≠ r.reported :=
    fun h => htold (List.length_eq_zero_iff.mp (Nat.add_eq_left.mp h))
  intro h
  cases hfatal : r.fatal <;> cases next <;>
    simp only [telling, hfatal, Bool.false_eq_true, if_true, if_false, EStateM.Result.error.injEq,
      reduceCtorEq] at h
  all_goals exact hlength (congrArg reported h.2)

/-- A guard keeps its promise for whatever was planned for. -/
theorem guard_of_planned (h : escape.failure? = none) : guard escape r = r.promised escape := by
  cases escape with
  | problem p => exact settle_eq_telling p r
  | exit code => rfl
  | interrupt => exact settle_eq_telling interruption r
  | breakdown b =>
    cases b with
    | tooDeep => exact settle_eq_telling overflow r
    | misplaced | unknownOperator | tokensExhausted | textExhausted | zeroDivision
    | nothingToPrint => cases h
  | defect d => cases h
  | unfinished => rfl

/-- A failure is told if its words can be read as a template. -/
theorem guard_of_failure {f : Failure} (h : escape.failure? = some f) :
    guard escape r =
      match failureProblem f with
      | .error fault => .error (.defect (.template fault)) r
      | .ok p => r.telling p.chain (some escape) := by
  have hguard : guard escape =
      match failureProblem f with
      | .error fault => throw (.defect (.template fault))
      | .ok p => settle p >>= fun _ => throw escape := by
    rw [guard.eq_def]
    split
    case h_6 | h_7 =>
      generalize Escape.failure? _ = failure at h ⊢
      subst h
      rfl
    all_goals cases h
  rw [hguard]
  cases failureProblem f with
  | error fault => rfl
  | ok p =>
    simp only [Bind.bind, EStateM.bind, settle_eq_telling, telling]
    cases r.fatal <;> rfl

theorem told_of_failure {f : Failure} (h : escape.failure? = some f) :
    escape.told = [.unplanned f.words] := by
  rw [Escape.told.eq_def]
  split
  case h_6 => rw [h]; rfl
  all_goals cases h

theorem promised_of_failure {f : Failure} (h : escape.failure? = some f) :
    r.promised escape = r.telling [.unplanned f.words] (some escape) := by
  rw [promised.eq_def]
  split
  case h_3 => rw [told_of_failure h, h]; rfl
  all_goals cases h

/-- A plain failure is told in its own words. -/
theorem failureProblem_of_isPlain {f : Failure} (h : f.IsPlain) :
    failureProblem f = .ok (.general (.unplanned f.words)) :=
  failureProblem_eq_ok_iff.mpr
    ⟨f.words.toList, doubled_words_iff.mpr h, by rw [String.ofList_toList]⟩

/-- A guard keeps its promise unless it is given a failure that is not plain, and the promise is
that the words of a failure are written as they are. Otherwise the words are at fault as a template,
which escapes and leaves the failure untold, or they are told with doubled braces as single ones. -/
theorem guard_eq_promised_iff (r : Reporter) (escape : Escape) :
    (guard escape r = r.promised escape ↔ ∀ f ∈ escape.failure?, f.IsPlain) ∧
      (∀ f ∈ escape.failure?, (escape.told.foldl reportOne r).log =
        r.log ++ (r.place ++ (r.style.bold (some .red) "[internal] " ++
          r.style.bold (some .red) "error: ") ++ f.words) ++ "\n") ∧
      ∀ f ∈ escape.failure?, ¬f.IsPlain →
        (∃ fault, guard escape r = .error (.defect (.template fault)) r) ∨
          ∃ text, Template.doubled text = f.words.toList ∧
            guard escape r = r.telling [.unplanned (String.ofList text)] (some escape) := by
  cases hfailure : escape.failure? with
  | none => simp [guard_of_planned hfailure]
  | some f =>
    simp only [Option.mem_some_iff, forall_eq', guard_of_failure hfailure,
      promised_of_failure hfailure, told_of_failure hfailure, log_unplanned, true_and]
    refine ⟨⟨fun h => ?_, fun hplain => ?_⟩, fun _ => ?_⟩
    · cases hproblem : failureProblem f with
      | error fault =>
        rw [hproblem] at h
        exact absurd h.symm (telling_ne (List.cons_ne_nil _ _) _ _)
      | ok p =>
        rw [hproblem] at h
        obtain ⟨text, htext, rfl⟩ := failureProblem_eq_ok_iff.mp hproblem
        have hwords : String.ofList text = f.words := words_eq_of_telling h
        rw [← doubled_words_iff, ← hwords, String.toList_ofList, htext, ← hwords,
          String.toList_ofList]
    · rw [failureProblem_of_isPlain hplain]
      rfl
    · cases hproblem : failureProblem f with
      | error fault => exact .inl ⟨fault, rfl⟩
      | ok p =>
        obtain ⟨text, htext, rfl⟩ := failureProblem_eq_ok_iff.mp hproblem
        exact .inr ⟨text, htext, rfl⟩

/-- An empty pair of braces in the words of a failure asks for a snippet that is not there. The
failure is not told, and another one escapes. -/
theorem guard_eq_promised_iff_slot :
    guard (.defect (.refused "\x7b\x7d")) (.new .plain false) =
        .error (.defect (.template (.missing 0))) (.new .plain false) ∧
      guard (.defect (.refused "\x7b\x7d")) (.new .plain false) ≠
        (Reporter.new .plain false).promised (.defect (.refused "\x7b\x7d")) := by
  have hproblem : failureProblem ⟨"ValueError", "\x7b\x7d"⟩ = .error (.missing 0) :=
    failureProblem_of_fill_error
      (Template.fill_nil_of_slot "unknown error: 'ValueError: ".toList ['\''] (by decide +kernel))
  constructor
  · rw [guard_of_failure rfl, Defect.failure, hproblem]
  · rw [ne_eq, (guard_eq_promised_iff _ _).1]
    intro h
    exact absurd rfl (h _ rfl '\x7b' (by decide)).1

end Reporter

end Script
