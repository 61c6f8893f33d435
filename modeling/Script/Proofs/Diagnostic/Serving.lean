import Script.Diagnostic.Reporter
import Script.Proofs.Evaluation.Keeping

/-!
# Reporters that serve one path

The reporter of an interactive session goes on after problems and knows the path of the session
only. Registering and forgetting sources, warning, reporting and dealing with escapes keep it so.

## Main definitions

* `Reporter.ServesOnly` : a reporter that knows no path but one.
* `Escape.IsOfSource` : an escape that a source text is to blame for.

## Main results

* `Reporter.report_eq` : what reporting changes.
* `Reporter.keeps_guard` : dealing with an escape leaves the paths alone.
* `Reporter.guard_of_isOfSource` : what a source text is to blame for ends with a report.
-/

namespace Script

namespace Reporter

/-- A reporter that goes on after problems and knows no path but one. -/
structure ServesOnly (style : Style) (path : String) (r : Reporter) : Prop where
  style_eq : r.style = style
  fatal_eq : r.fatal = false
  sources_eq : ∃ registration, r.sources = [(path, registration)]

theorem tell_eq (r : Reporter) (colour : Colour) (title : String) (d : Diagnostic) :
    ∃ log, r.tell colour title d = { r with log } := by
  rw [tell]
  obtain ⟨head, text⟩ := r.header d
  cases text with
  | none => exact ⟨_, rfl⟩
  | some text =>
    dsimp only
    split <;> exact ⟨_, rfl⟩

/-- Writing diagnostics of errors counts them, and leaves all else alone. -/
theorem foldl_reportOne_eq (told : List Diagnostic) (r : Reporter) :
    ∃ log, told.foldl reportOne r = { r with reported := r.reported + told.length, log } := by
  induction told generalizing r with
  | nil => exact ⟨r.log, rfl⟩
  | cons d told ih =>
    obtain ⟨log, htell⟩ := r.tell_eq .red
      ((if d.internal then r.style.bold (some .red) "[internal] " else "") ++
        r.style.bold (some .red) "error: ") d
    obtain ⟨log', hrest⟩ := ih (r.reportOne d)
    refine ⟨log', ?_⟩
    rw [List.foldl_cons, hrest, reportOne, htell, List.length_cons, Nat.add_right_comm,
      Nat.add_assoc]

theorem reported_foldl_reportOne (told : List Diagnostic) (r : Reporter) :
    (told.foldl reportOne r).reported = r.reported + told.length := by
  obtain ⟨log, htold⟩ := foldl_reportOne_eq told r
  rw [htold]

/-- Reporting writes and counts, and leaves all else alone. -/
theorem report_eq (r : Reporter) (p : Problem) :
    ∃ reported log, r.report p = { r with reported, log } := by
  obtain ⟨log, htold⟩ := foldl_reportOne_eq p.chain r
  exact ⟨_, log, htold⟩

theorem reported_report (r : Reporter) (f : RuntimeFault) :
    (r.report f.problem).reported = r.reported + 1 :=
  reported_foldl_reportOne f.problem.chain r

theorem fatal_report (r : Reporter) (p : Problem) : (r.report p).fatal = r.fatal := by
  obtain ⟨reported, log, hreport⟩ := r.report_eq p
  rw [hreport]

theorem fatal_warn (r : Reporter) (d : Diagnostic) : (r.warn d).fatal = r.fatal := by
  obtain ⟨log, htell⟩ := r.tell_eq .magenta (r.style.bold (some .magenta) "warning: ") d
  rw [warn, htell]

namespace ServesOnly

variable {style : Style} {path : String} {r : Reporter}

theorem sources_register (h : r.ServesOnly style path) (source : String) (line : Int) :
    (r.register path source line).sources = [(path, some ⟨source, line⟩)] := by
  obtain ⟨registration, hsources⟩ := h.sources_eq
  rw [register, hsources]
  simp [Dictionary.put]

theorem register (h : r.ServesOnly style path) (source : String) (line : Int) :
    (r.register path source line).ServesOnly style path :=
  ⟨h.style_eq, h.fatal_eq, _, h.sources_register source line⟩

theorem forget (h : r.ServesOnly style path) : (r.forget path).ServesOnly style path := by
  obtain ⟨registration, hsources⟩ := h.sources_eq
  refine ⟨h.style_eq, h.fatal_eq, none, ?_⟩
  rw [Reporter.forget, hsources]
  simp [Dictionary.put]

theorem forgetAll (h : r.ServesOnly style path) : r.forgetAll.ServesOnly style path := by
  obtain ⟨registration, hsources⟩ := h.sources_eq
  refine ⟨h.style_eq, h.fatal_eq, none, ?_⟩
  rw [Reporter.forgetAll, hsources]
  rfl

theorem warn (h : r.ServesOnly style path) (d : Diagnostic) :
    (r.warn d).ServesOnly style path := by
  obtain ⟨log, htell⟩ := r.tell_eq .magenta (r.style.bold (some .magenta) "warning: ") d
  rw [Reporter.warn, htell]
  exact ⟨h.style_eq, h.fatal_eq, h.sources_eq⟩

theorem report (h : r.ServesOnly style path) (p : Problem) :
    (r.report p).ServesOnly style path := by
  obtain ⟨reported, log, hreport⟩ := r.report_eq p
  rw [hreport]
  exact ⟨h.style_eq, h.fatal_eq, h.sources_eq⟩

theorem sources_forget (h : r.ServesOnly style path) :
    (r.forget path).sources = [(path, none)] := by
  obtain ⟨registration, hsources⟩ := h.sources_eq
  rw [Reporter.forget, hsources]
  simp [Dictionary.put]

theorem sources_forgetAll (h : r.ServesOnly style path) : r.forgetAll.sources = [(path, none)] := by
  obtain ⟨registration, hsources⟩ := h.sources_eq
  rw [Reporter.forgetAll, hsources]
  rfl

end ServesOnly

theorem keeps_settle (style : Style) (path : String) (p : Problem) :
    Keeps (ServesOnly style path) (fun _ => True) (settle p) fun _ => True := by
  intro r hr
  have hreport := hr.report p
  simp only [settle, hreport.fatal_eq, Bool.false_eq_true, if_false]
  exact ⟨hreport.forgetAll, trivial⟩

/-- Dealing with an escape leaves the paths of a reporter alone. -/
theorem keeps_guard (style : Style) (path : String) (escape : Escape) :
    Keeps (ServesOnly style path) (fun _ => True) (guard escape) fun _ => True := by
  rw [guard.eq_def]
  split
  · exact .throw trivial
  · exact .throw trivial
  · exact keeps_settle style path _
  · exact keeps_settle style path _
  · exact keeps_settle style path _
  all_goals
    split
    · exact .throw trivial
    · split
      · exact .throw trivial
      · exact (keeps_settle style path _).bind fun _ _ => .throw trivial

end Reporter

/-- An escape that a source text or its nesting is to blame for. -/
inductive Escape.IsOfSource : Escape → Prop
  | problem (p : Problem) : IsOfSource (.problem p)
  | tooDeep : IsOfSource (.breakdown .tooDeep)

/-- An escape that a source text is to blame for is reported and ends there, and the source is
forgotten. -/
theorem Reporter.guard_of_isOfSource {style : Style} {path : String} {r : Reporter}
    (hr : r.ServesOnly style path) {escape : Escape} (h : escape.IsOfSource) :
    ∃ r' : Reporter, guard escape r = .ok () r' ∧ r'.ServesOnly style path ∧
      r'.sources = [(path, none)] := by
  have hsettle (p : Problem) : settle p r = .ok () (r.report p).forgetAll := by
    simp only [settle, (hr.report p).fatal_eq, Bool.false_eq_true, if_false]
  cases h with
  | problem p =>
    exact ⟨_, hsettle p, (hr.report p).forgetAll, (hr.report p).sources_forgetAll⟩
  | tooDeep =>
    exact ⟨_, hsettle _, (hr.report _).forgetAll, (hr.report _).sources_forgetAll⟩

end Script
