import FeatureProbes.Diagnostics
import Mathlib.Data.List.Forall2

/-!
# Outcomes of build steps

A step of a build turns a list of diagnostics into a longer one, and it gives a value or an error.
Both outcomes are relations here, with one law for each way in which steps are put together, so a
proof about a step follows the text of the step.

Many properties of steps are kept when steps are put together, so they hold of a build if they hold
of the few steps that it is made of.  Failing for certain reasons only is one of them, and so is
being orderly.  Most steps are orderly: they note diagnostics of one sort only, whether they fail or
not, and neither what they come to nor what they note depends on what was noted before.
-/

namespace FeatureProbes

namespace Diagnostics

theorem mem_report_iff
    {diagnostics : Diagnostics} {diagnostic note : Diagnostic} :
    note ∈ diagnostics.report diagnostic ↔ note ∈ diagnostics ∨ note = diagnostic := by
  rw [report]
  split
  · rename_i hmem
    exact ⟨Or.inl, fun h => h.elim id fun heq => heq ▸ hmem⟩
  · simp

/-- Note diagnostics one after the other. -/
def reportAll (diagnostics notes : Diagnostics) : Diagnostics :=
  notes.foldl report diagnostics

theorem reportAll_cons
    (diagnostics : Diagnostics) (note : Diagnostic) (notes : Diagnostics) :
    diagnostics.reportAll (note :: notes) = (diagnostics.report note).reportAll notes :=
  rfl

theorem reportAll_append
    (diagnostics first second : Diagnostics) :
    diagnostics.reportAll (first ++ second) = (diagnostics.reportAll first).reportAll second :=
  List.foldl_append

theorem mem_reportAll_iff
    {diagnostics notes : Diagnostics} {note : Diagnostic} :
    note ∈ diagnostics.reportAll notes ↔ note ∈ diagnostics ∨ note ∈ notes := by
  induction notes generalizing diagnostics with
  | nil =>
      simp [reportAll]
  | cons head rest ih =>
      rw [reportAll_cons, ih, mem_report_iff, List.mem_cons, or_assoc]

theorem nodup_reportAll
    {diagnostics : Diagnostics}
    (notes : Diagnostics)
    (h : diagnostics.Nodup) :
    (diagnostics.reportAll notes).Nodup := by
  induction notes generalizing diagnostics with
  | nil =>
      exact h
  | cons note notes ih =>
      exact ih (nodup_report note h)

/-- What is noted twice is noted once. -/
theorem reportAll_report
    (diagnostics notes : Diagnostics)
    (note : Diagnostic) :
    diagnostics.reportAll (notes.report note) = (diagnostics.reportAll notes).report note := by
  by_cases hmem : note ∈ notes
  · have hthere : note ∈ diagnostics.reportAll notes := mem_reportAll_iff.2 (Or.inr hmem)
    rw [report, if_pos hmem, report, if_pos hthere]
  · have hnew : notes.report note = notes ++ [note] := if_neg hmem
    rw [hnew, reportAll_append]
    rfl

theorem reportAll_reportAll
    (diagnostics first second : Diagnostics) :
    diagnostics.reportAll (first.reportAll second) =
      (diagnostics.reportAll first).reportAll second := by
  induction second generalizing first with
  | nil =>
      rfl
  | cons note rest ih =>
      rw [reportAll_cons, reportAll_cons, ih, reportAll_report]

/-- Noting diagnostics leaves what was there, and appends others, each once. -/
theorem exists_reportAll_eq_append
    (diagnostics notes : Diagnostics) :
    ∃ added, diagnostics.reportAll notes = diagnostics ++ added ∧ added.Nodup ∧
      ∀ note ∈ added, note ∉ diagnostics := by
  induction notes generalizing diagnostics with
  | nil =>
      exact ⟨[], (List.append_nil diagnostics).symm, List.nodup_nil, by simp⟩
  | cons note notes ih =>
      rw [reportAll_cons]
      by_cases hmem : note ∈ diagnostics
      · rw [report, if_pos hmem]
        exact ih diagnostics
      · obtain ⟨added, heq, hnodup, hnew⟩ := ih (diagnostics ++ [note])
        rw [report, if_neg hmem, heq]
        have hother : note ∉ added := fun h => hnew note h (by simp)
        refine ⟨note :: added, by simp, List.nodup_cons.2 ⟨hother, hnodup⟩, ?_⟩
        intro found hfound
        rcases List.mem_cons.1 hfound with rfl | hfound
        · exact hmem
        · exact fun h => hnew found hfound (List.mem_append_left _ h)

/-- Noting diagnostics appends those that are new, each once. -/
theorem reportAll_eq
    (diagnostics notes : Diagnostics) :
    diagnostics.reportAll notes = diagnostics ++ (notes.removeAll diagnostics).eraseDups := by
  induction notes generalizing diagnostics with
  | nil =>
      simp [reportAll]
  | cons note notes ih =>
      rw [reportAll_cons, ih, report, List.cons_removeAll]
      by_cases hmem : note ∈ diagnostics
      · simp [hmem]
      · have hlater :
            notes.removeAll (diagnostics ++ [note]) =
              (notes.removeAll diagnostics).filter fun other => !other == note := by
          simp only [List.removeAll, List.filter_filter]
          refine List.filter_congr fun other _ => ?_
          rw [Bool.eq_iff_iff]
          simp [and_comm]
        simp [hmem, List.eraseDups_cons, hlater]

end Diagnostics

namespace Reporting

variable {α β : Type}

/-- What a step comes to after some diagnostics, and the diagnostics after it. -/
def outcome
    (step : Reporting α)
    (before : Diagnostics) :
    Except BuildError α × Diagnostics :=
  step.run.run before

/-- A step gives a value and leaves some diagnostics. -/
def Gives
    (step : Reporting α)
    (before : Diagnostics)
    (value : α)
    (after : Diagnostics) : Prop :=
  step.outcome before = (.ok value, after)

/-- What a step gives if nothing was noted before. -/
def result?
    (step : Reporting α) :
    Option α :=
  (step.outcome []).1.toOption

theorem exists_gives_of_result?
    {step : Reporting α} {value : α}
    (h : result? step = some value) :
    ∃ after, Gives step [] value after := by
  unfold result? at h
  cases hresult : (step.outcome []).1 with
  | error error =>
      rw [hresult] at h
      cases h
  | ok found =>
      rw [hresult] at h
      cases h
      exact ⟨_, Prod.ext hresult rfl⟩

/-- A step fails and leaves some diagnostics. -/
def Fails
    (step : Reporting α)
    (before : Diagnostics)
    (error : BuildError)
    (after : Diagnostics) : Prop :=
  step.outcome before = (.error error, after)

theorem gives_or_fails
    (step : Reporting α)
    (before : Diagnostics) :
    (∃ value after, Gives step before value after) ∨
      ∃ error after, Fails step before error after := by
  cases h : step.outcome before with
  | mk result after =>
      cases result with
      | ok value =>
          exact Or.inl ⟨value, after, h⟩
      | error error =>
          exact Or.inr ⟨error, after, h⟩

theorem Gives.not_fails
    {step : Reporting α} {before after after' : Diagnostics} {value : α} {error : BuildError}
    (h : Gives step before value after) :
    ¬Fails step before error after' := by
  intro hfails
  have hboth := h.symm.trans hfails
  cases hboth

@[simp] theorem gives_pure_iff
    {value result : α} {before after : Diagnostics} :
    Gives (pure value) before result after ↔ value = result ∧ before = after := by
  constructor
  · intro h
    cases h
    exact ⟨rfl, rfl⟩
  · rintro ⟨rfl, rfl⟩
    rfl

@[simp] theorem not_fails_pure
    {value : α} {before after : Diagnostics} {error : BuildError} :
    ¬Fails (pure value : Reporting α) before error after := by
  intro h
  cases h

@[simp] theorem not_gives_throw
    {error : BuildError} {before after : Diagnostics} {value : α} :
    ¬Gives (throw error : Reporting α) before value after := by
  intro h
  cases h

@[simp] theorem fails_throw_iff
    {thrown error : BuildError} {before after : Diagnostics} :
    Fails (throw thrown : Reporting α) before error after ↔ thrown = error ∧ before = after := by
  constructor
  · intro h
    cases h
    exact ⟨rfl, rfl⟩
  · rintro ⟨rfl, rfl⟩
    rfl

@[simp] theorem gives_report_iff
    {code path message : String} {before after : Diagnostics} {value : Unit} :
    Gives (report code path message) before value after ↔
      before.report ⟨code, path, message⟩ = after := by
  constructor
  · intro h
    cases h
    rfl
  · rintro rfl
    rfl

@[simp] theorem not_fails_report
    {code path message : String} {before after : Diagnostics} {error : BuildError} :
    ¬Fails (report code path message) before error after := by
  intro h
  cases h

@[simp] theorem gives_ofExcept_iff
    {result : Except BuildError α} {before after : Diagnostics} {value : α} :
    Gives (ofExcept result) before value after ↔ result = .ok value ∧ before = after := by
  cases result with
  | ok a =>
      simp [ofExcept]
  | error e =>
      simp [ofExcept]

@[simp] theorem fails_ofExcept_iff
    {result : Except BuildError α} {before after : Diagnostics} {error : BuildError} :
    Fails (ofExcept result) before error after ↔ result = .error error ∧ before = after := by
  cases result with
  | ok a =>
      simp [ofExcept]
  | error e =>
      simp [ofExcept]

theorem ofExcept_bind
    (result : Except BuildError α)
    (next : α → Except BuildError β) :
    ofExcept (result >>= next) = ofExcept result >>= fun value => ofExcept (next value) := by
  cases result with
  | ok value =>
      rfl
  | error error =>
      rfl

theorem ofExcept_mapM
    (f : α → Except BuildError β)
    (items : List α) :
    ofExcept (items.mapM f) = items.mapM fun item => ofExcept (f item) := by
  induction items with
  | nil =>
      rfl
  | cons item items ih =>
      rw [List.mapM_cons, List.mapM_cons, ofExcept_bind]
      refine congrArg (ofExcept (f item) >>= ·) (funext fun value => ?_)
      rw [ofExcept_bind, ih]
      rfl

theorem outcome_bind
    (step : Reporting α)
    (next : α → Reporting β)
    (before : Diagnostics) :
    (step >>= next).outcome before =
      match step.outcome before with
      | (.ok value, middle) => (next value).outcome middle
      | (.error error, middle) => (.error error, middle) := by
  change ((step >>= next).run.run before) = _
  rw [ExceptT.run_bind, StateT.run_bind]
  cases h : step.outcome before with
  | mk result middle =>
      have hrun : step.run.run before = (result, middle) := h
      rw [hrun]
      cases result with
      | ok value =>
          rfl
      | error error =>
          rfl

/-- Two steps give a value if the first gives one and the second goes on from there. -/
theorem gives_bind_iff
    {step : Reporting α} {next : α → Reporting β} {before after : Diagnostics} {result : β} :
    Gives (step >>= next) before result after ↔
      ∃ value middle, Gives step before value middle ∧ Gives (next value) middle result after := by
  unfold Gives
  rw [outcome_bind]
  cases step.outcome before with
  | mk result middle =>
      cases result with
      | ok value =>
          simp [and_assoc]
      | error error =>
          simp

/-- Two steps fail if the first fails, or if the second does after the first. -/
theorem fails_bind_iff
    {step : Reporting α} {next : α → Reporting β} {before after : Diagnostics}
    {error : BuildError} :
    Fails (step >>= next) before error after ↔
      Fails step before error after ∨
        ∃ value middle, Gives step before value middle ∧ Fails (next value) middle error after := by
  unfold Fails Gives
  rw [outcome_bind]
  cases step.outcome before with
  | mk result middle =>
      cases result with
      | ok value =>
          simp [and_assoc]
      | error error =>
          simp

theorem gives_map_iff
    {step : Reporting α} {f : α → β} {before after : Diagnostics} {result : β} :
    Gives (f <$> step) before result after ↔
      ∃ value, Gives step before value after ∧ f value = result := by
  rw [← bind_pure_comp, gives_bind_iff]
  simp

theorem fails_map_iff
    {step : Reporting α} {f : α → β} {before after : Diagnostics} {error : BuildError} :
    Fails (f <$> step) before error after ↔ Fails step before error after := by
  rw [← bind_pure_comp, fails_bind_iff]
  simp

/-! ## Properties of steps -/

/-- A property of steps that is kept when steps are put together. -/
structure Composable (P : ∀ α : Type, Reporting α → Prop) : Prop where
  pure : ∀ {α : Type} (value : α), P α (pure value)
  bind : ∀ {α β : Type} {step : Reporting α} {next : α → Reporting β},
    P α step → (∀ value, P β (next value)) → P β (step >>= next)

section Composable

variable {P : ∀ α : Type, Reporting α → Prop}

theorem Composable.map
    {step : Reporting α}
    (h : Composable P)
    (f : α → β)
    (hstep : P α step) :
    P β (f <$> step) := by
  rw [← bind_pure_comp]
  exact h.bind hstep fun value => h.pure (f value)

theorem Composable.mapM
    {f : α → Reporting β} {items : List α}
    (h : Composable P)
    (hf : ∀ item ∈ items, P β (f item)) :
    P (List β) (items.mapM f) := by
  induction items with
  | nil =>
      exact h.pure []
  | cons item items ih =>
      rw [List.mapM_cons]
      refine h.bind (hf item List.mem_cons_self) fun value => ?_
      have hrest := ih fun next hnext => hf next (List.mem_cons_of_mem item hnext)
      refine h.bind hrest fun values => ?_
      exact h.pure (value :: values)

theorem Composable.ofExcept_foldlM
    {f : β → α → Except BuildError β} {items : List α} {start : β}
    (h : Composable P)
    (hf : ∀ state item, P β (ofExcept (f state item))) :
    P β (ofExcept (items.foldlM f start)) := by
  induction items generalizing start with
  | nil =>
      exact h.pure start
  | cons item items ih =>
      rw [List.foldlM_cons, ofExcept_bind]
      exact h.bind (hf start item) fun state => ih

/-- A step fails for certain reasons only. -/
def FailsFor
    (reason : BuildError → Prop)
    (step : Reporting α) : Prop :=
  ∀ before error after, Fails step before error after → reason error

variable {reason : BuildError → Prop}

theorem failsFor_ofExcept_iff
    {result : Except BuildError α} :
    FailsFor reason (ofExcept result) ↔ ∀ error, result = .error error → reason error := by
  constructor
  · intro h error herror
    exact h [] error [] (fails_ofExcept_iff.2 ⟨herror, rfl⟩)
  · intro h before error after hfails
    exact h error (fails_ofExcept_iff.1 hfails).1

theorem composable_failsFor
    (reason : BuildError → Prop) :
    Composable fun _ => FailsFor reason := by
  constructor
  · intro α value before error after hfails
    exact absurd hfails not_fails_pure
  · intro α β step next hstep hnext before error after hfails
    rcases fails_bind_iff.1 hfails with hfails | ⟨value, middle, -, hfails⟩
    · exact hstep before error after hfails
    · exact hnext value middle error after hfails

theorem failsFor_report
    (code path message : String) :
    FailsFor reason (report code path message) :=
  fun _ _ _ hfails => absurd hfails not_fails_report

theorem FailsFor.mono
    {more : BuildError → Prop} {step : Reporting α}
    (h : FailsFor reason step)
    (hmore : ∀ error, reason error → more error) :
    FailsFor more step :=
  fun before error after hfails => hmore error (h before error after hfails)

end Composable

/-! ## Orderly steps -/

/-- A step that keeps what was noted before, adds only allowed diagnostics, and notes and comes to
the same after any diagnostics. -/
structure Orderly
    (allowed : Diagnostic → Prop)
    (step : Reporting α) : Prop where
  adds : ∀ before, ∃ added,
    (step.outcome before).2 = before ++ added ∧ ∀ note ∈ added, allowed note
  steady : ∀ first second, (step.outcome first).1 = (step.outcome second).1
  collects : ∀ before, (step.outcome before).2 = before.reportAll (step.outcome []).2

section Orderly

variable {allowed : Diagnostic → Prop}

theorem orderly_pure
    (value : α) :
    Orderly allowed (pure value : Reporting α) :=
  ⟨fun before => ⟨[], (List.append_nil before).symm, by simp⟩, fun _ _ => rfl, fun _ => rfl⟩

theorem orderly_throw
    (error : BuildError) :
    Orderly allowed (throw error : Reporting α) :=
  ⟨fun before => ⟨[], (List.append_nil before).symm, by simp⟩, fun _ _ => rfl, fun _ => rfl⟩

theorem orderly_ofExcept
    (result : Except BuildError α) :
    Orderly allowed (ofExcept result) := by
  cases result with
  | ok value =>
      exact orderly_pure value
  | error error =>
      exact orderly_throw error

theorem orderly_report
    {code path message : String}
    (h : allowed ⟨code, path, message⟩) :
    Orderly allowed (report code path message) := by
  refine ⟨?_, fun _ _ => rfl, fun _ => rfl⟩
  intro before
  change ∃ added, before.report ⟨code, path, message⟩ = before ++ added ∧ _
  by_cases hmem : (⟨code, path, message⟩ : Diagnostic) ∈ before
  · exact ⟨[], by simp [Diagnostics.report, hmem], by simp⟩
  · exact ⟨[⟨code, path, message⟩], by simp [Diagnostics.report, hmem], by simpa using h⟩

theorem Orderly.bind
    {step : Reporting α} {next : α → Reporting β}
    (hstep : Orderly allowed step)
    (hnext : ∀ value, Orderly allowed (next value)) :
    Orderly allowed (step >>= next) := by
  constructor
  · intro before
    obtain ⟨added, hadded, hallowed⟩ := hstep.adds before
    rw [outcome_bind]
    cases h : step.outcome before with
    | mk result middle =>
        rw [h] at hadded
        cases result with
        | ok value =>
            obtain ⟨more, hmore, hallowed'⟩ := (hnext value).adds middle
            refine ⟨added ++ more, ?_, ?_⟩
            · rw [← List.append_assoc, ← hadded]
              exact hmore
            · intro note hnote
              rcases List.mem_append.1 hnote with hnote | hnote
              · exact hallowed note hnote
              · exact hallowed' note hnote
        | error error =>
            exact ⟨added, hadded, hallowed⟩
  · intro first second
    have hsame := hstep.steady first second
    rw [outcome_bind, outcome_bind]
    cases h : step.outcome first with
    | mk result middle =>
        cases h' : step.outcome second with
        | mk result' middle' =>
            rw [h, h'] at hsame
            cases hsame
            cases result with
            | ok value =>
                exact (hnext value).steady middle middle'
            | error error =>
                rfl
  · intro before
    have hsame := hstep.steady before []
    have hmiddle := hstep.collects before
    rw [outcome_bind, outcome_bind]
    cases h : step.outcome before with
    | mk result middle =>
        cases h' : step.outcome [] with
        | mk result' noted =>
            rw [h, h'] at hsame hmiddle
            cases hsame
            cases result with
            | ok value =>
                change ((next value).outcome middle).2 =
                  before.reportAll ((next value).outcome noted).2
                change middle = before.reportAll noted at hmiddle
                rw [(hnext value).collects middle, (hnext value).collects noted, hmiddle,
                  Diagnostics.reportAll_reportAll]
            | error error =>
                exact hmiddle

variable (allowed) in
theorem composable_orderly :
    Composable fun _ => Orderly allowed :=
  ⟨orderly_pure, Orderly.bind⟩

theorem Orderly.map
    {step : Reporting α}
    (f : α → β)
    (h : Orderly allowed step) :
    Orderly allowed (f <$> step) :=
  (composable_orderly allowed).map f h

theorem Orderly.mapM
    {f : α → Reporting β}
    (h : ∀ item, Orderly allowed (f item))
    (items : List α) :
    Orderly allowed (items.mapM f) :=
  (composable_orderly allowed).mapM fun item _ => h item

theorem Orderly.mono
    {more : Diagnostic → Prop} {step : Reporting α}
    (h : Orderly allowed step)
    (hmore : ∀ note, allowed note → more note) :
    Orderly more step := by
  refine ⟨?_, h.steady, h.collects⟩
  intro before
  obtain ⟨added, hadded, hallowed⟩ := h.adds before
  exact ⟨added, hadded, fun note hnote => hmore note (hallowed note hnote)⟩

theorem Orderly.isPrefix
    {step : Reporting α} {before after : Diagnostics} {value : α}
    (h : Orderly allowed step)
    (hgives : Gives step before value after) :
    before <+: after := by
  obtain ⟨added, hadded, -⟩ := h.adds before
  rw [hgives] at hadded
  exact ⟨added, hadded.symm⟩

/-- What a step gives and what it notes can be told from what it does alone. -/
theorem Orderly.exists_gives_nil
    {step : Reporting α} {before after : Diagnostics} {value : α}
    (h : Orderly allowed step)
    (hgives : Gives step before value after) :
    ∃ notes, Gives step [] value notes ∧ after = before.reportAll notes := by
  have hvalue := h.steady before []
  have hnotes := h.collects before
  rw [hgives] at hvalue hnotes
  exact ⟨(step.outcome []).2, Prod.ext hvalue.symm rfl, hnotes⟩

theorem Orderly.mem_or
    {step : Reporting α} {before after : Diagnostics} {value : α} {note : Diagnostic}
    (h : Orderly allowed step)
    (hgives : Gives step before value after)
    (hnote : note ∈ after) :
    note ∈ before ∨ allowed note := by
  obtain ⟨added, hadded, hallowed⟩ := h.adds before
  rw [hgives] at hadded
  change after = before ++ added at hadded
  rw [hadded, List.mem_append] at hnote
  exact hnote.imp_right (hallowed note)

/-- A step gives a value after some diagnostics. -/
def Yields
    (step : Reporting α)
    (value : α) : Prop :=
  ∃ before after, Gives step before value after

theorem Gives.yields
    {step : Reporting α} {before after : Diagnostics} {value : α}
    (h : Gives step before value after) :
    Yields step value :=
  ⟨before, after, h⟩

theorem Orderly.yields_unique
    {step : Reporting α} {first second : α}
    (h : Orderly allowed step)
    (hfirst : Yields step first)
    (hsecond : Yields step second) :
    first = second := by
  obtain ⟨before, after, hfirst⟩ := hfirst
  obtain ⟨before', after', hsecond⟩ := hsecond
  have hsame := h.steady before before'
  rw [hfirst, hsecond] at hsame
  cases hsame
  rfl

/-- What an orderly step gives after some diagnostics it gives after any. -/
theorem Orderly.gives_of_yields
    {step : Reporting α} {value : α}
    (h : Orderly allowed step)
    (hyields : Yields step value)
    (before : Diagnostics) :
    ∃ after, Gives step before value after := by
  obtain ⟨first, last, hgives⟩ := hyields
  have hsame := h.steady before first
  rw [hgives] at hsame
  exact ⟨(step.outcome before).2, Prod.ext hsame rfl⟩

theorem Orderly.result?_of_yields
    {step : Reporting α} {value : α}
    (h : Orderly allowed step)
    (hyields : Yields step value) :
    result? step = some value := by
  obtain ⟨after, hgives⟩ := h.gives_of_yields hyields []
  rw [result?, hgives]
  rfl

end Orderly

/-! ## Steps for all items of a list -/

theorem mapM_congr
    {m : Type → Type} [Monad m] [LawfulMonad m] {f g : α → m β} {items : List α}
    (h : ∀ item ∈ items, f item = g item) :
    items.mapM f = items.mapM g := by
  induction items with
  | nil =>
      rw [List.mapM_nil, List.mapM_nil]
  | cons item items ih =>
      rw [List.mapM_cons, List.mapM_cons, h item List.mem_cons_self,
        ih fun later hlater => h later (List.mem_cons_of_mem item hlater)]

/-- Each value of the steps for all items comes from the step for one of them, which lies between
the beginning and the end. -/
theorem Gives.exists_of_mem_mapM
    {allowed : Diagnostic → Prop} {f : α → Reporting β} {items : List α} {values : List β}
    {value : β} {before after : Diagnostics}
    (horderly : ∀ item, Orderly allowed (f item))
    (h : Gives (items.mapM f) before values after)
    (hvalue : value ∈ values) :
    ∃ item ∈ items, ∃ first last,
      Gives (f item) first value last ∧ before <+: first ∧ last <+: after := by
  induction items generalizing before values with
  | nil =>
      simp at h
      simp [h.1] at hvalue
  | cons item items ih =>
      rw [List.mapM_cons, gives_bind_iff] at h
      obtain ⟨head, middle, hhead, h⟩ := h
      rw [gives_bind_iff] at h
      obtain ⟨tail, last, htail, h⟩ := h
      obtain ⟨rfl, rfl⟩ := gives_pure_iff.1 h
      rcases List.mem_cons.1 hvalue with rfl | hvalue
      · exact ⟨item, List.mem_cons_self, before, middle, hhead, List.prefix_refl before,
          (Orderly.mapM horderly items).isPrefix htail⟩
      · obtain ⟨found, hfound, first, final, hgives, hfirst, hfinal⟩ := ih htail hvalue
        exact ⟨found, List.mem_cons_of_mem _ hfound, first, final, hgives,
          ((horderly item).isPrefix hhead).trans hfirst, hfinal⟩

/-- The values of the steps for all items are, one by one, what these steps give. -/
theorem Gives.forall₂_of_mapM
    {f : α → Reporting β} {items : List α} {values : List β} {before after : Diagnostics}
    (h : Gives (items.mapM f) before values after) :
    List.Forall₂ (fun item value => Yields (f item) value) items values := by
  induction items generalizing before values with
  | nil =>
      simp at h
      rw [h.1]
      exact .nil
  | cons item items ih =>
      rw [List.mapM_cons, gives_bind_iff] at h
      obtain ⟨head, middle, hhead, h⟩ := h
      rw [gives_bind_iff] at h
      obtain ⟨tail, last, htail, h⟩ := h
      obtain ⟨rfl, rfl⟩ := gives_pure_iff.1 h
      exact .cons hhead.yields (ih htail)

/-- Orderly steps for all items yield some values if each of them yields one. -/
theorem Orderly.yields_mapM
    {allowed : Diagnostic → Prop} {f : α → Reporting β} {items : List α} {values : List β}
    (horderly : ∀ item, Orderly allowed (f item))
    (h : List.Forall₂ (fun item value => Yields (f item) value) items values) :
    Yields (items.mapM f) values := by
  suffices hgives : ∀ before, ∃ after, Gives (items.mapM f) before values after by
    obtain ⟨after, hafter⟩ := hgives []
    exact hafter.yields
  induction h with
  | nil =>
      exact fun before => ⟨before, rfl⟩
  | @cons item value items values hitem _ ih =>
      intro before
      obtain ⟨middle, hmiddle⟩ := (horderly item).gives_of_yields hitem before
      obtain ⟨after, hafter⟩ := ih middle
      refine ⟨after, ?_⟩
      rw [List.mapM_cons, gives_bind_iff]
      exact ⟨value, middle, hmiddle,
        gives_bind_iff.2 ⟨values, after, hafter, gives_pure_iff.2 ⟨rfl, rfl⟩⟩⟩

/-- In related rows each value is related to one of the items, and each item to one of the
values. -/
theorem exists_of_forall₂
    {R : α → β → Prop} {items : List α} {values : List β}
    (h : List.Forall₂ R items values) :
    (∀ value ∈ values, ∃ item ∈ items, R item value) ∧
      ∀ item ∈ items, ∃ value ∈ values, R item value := by
  induction h with
  | nil =>
      simp
  | @cons item value items values hhead htail ih =>
      obtain ⟨hvalues, hitems⟩ := ih
      constructor
      · intro found hfound
        rcases List.mem_cons.1 hfound with rfl | hfound
        · exact ⟨item, List.mem_cons_self, hhead⟩
        · obtain ⟨source, hsource, hrelated⟩ := hvalues found hfound
          exact ⟨source, List.mem_cons_of_mem _ hsource, hrelated⟩
      · intro source hsource
        rcases List.mem_cons.1 hsource with rfl | hsource
        · exact ⟨value, List.mem_cons_self, hhead⟩
        · obtain ⟨found, hfound, hrelated⟩ := hitems source hsource
          exact ⟨found, List.mem_cons_of_mem _ hfound, hrelated⟩

theorem bind_eq_ok_iff
    {ε σ τ : Type} {first : Except ε σ} {next : σ → Except ε τ} {result : τ} :
    first >>= next = .ok result ↔ ∃ value, first = .ok value ∧ next value = .ok result := by
  cases first with
  | error error =>
      refine iff_of_false (fun h => by cases h) ?_
      rintro ⟨value, h, -⟩
      cases h
  | ok value =>
      constructor
      · intro h
        exact ⟨value, rfl, h⟩
      · rintro ⟨value', h, hnext⟩
        cases h
        exact hnext

/-- The values of results for all items are, one by one, these results. -/
theorem mapM_eq_ok_iff
    {ε : Type} {f : α → Except ε β} {items : List α} {values : List β} :
    items.mapM f = .ok values ↔
      List.Forall₂ (fun item value => f item = .ok value) items values := by
  induction items generalizing values with
  | nil =>
      rw [List.mapM_nil, List.forall₂_nil_left_iff]
      exact ⟨fun h => by cases h; rfl, fun h => h ▸ rfl⟩
  | cons item items ih =>
      rw [List.mapM_cons, bind_eq_ok_iff, List.forall₂_cons_left_iff]
      constructor
      · rintro ⟨head, hhead, h⟩
        obtain ⟨tail, htail, h⟩ := bind_eq_ok_iff.1 h
        cases h
        exact ⟨head, tail, hhead, ih.1 htail, rfl⟩
      · rintro ⟨head, tail, hhead, htail, rfl⟩
        exact ⟨head, hhead, bind_eq_ok_iff.2 ⟨tail, ih.2 htail, rfl⟩⟩

/-- There are values for all items where there is one for each of them. -/
theorem exists_mapM_eq_ok_iff
    {ε : Type} {f : α → Except ε β} {items : List α} :
    (∃ values, items.mapM f = .ok values) ↔ ∀ item ∈ items, ∃ value, f item = .ok value := by
  constructor
  · rintro ⟨values, h⟩ item hitem
    obtain ⟨value, -, hvalue⟩ := (exists_of_forall₂ (mapM_eq_ok_iff.1 h)).2 item hitem
    exact ⟨value, hvalue⟩
  · intro h
    induction items with
    | nil =>
        exact ⟨[], rfl⟩
    | cons item items ih =>
        obtain ⟨head, hhead⟩ := h item List.mem_cons_self
        obtain ⟨tail, htail⟩ := ih fun later hlater => h later (List.mem_cons_of_mem _ hlater)
        exact ⟨head :: tail, mapM_eq_ok_iff.2 (.cons hhead (mapM_eq_ok_iff.1 htail))⟩

/-- Each value of the steps for all items is given by the step for one of them, and each of these
steps gives one of the values. -/
theorem Gives.yields_of_mapM
    {f : α → Reporting β} {items : List α} {values : List β} {before after : Diagnostics}
    (h : Gives (items.mapM f) before values after) :
    (∀ value ∈ values, ∃ item ∈ items, Yields (f item) value) ∧
      ∀ item ∈ items, ∃ value ∈ values, Yields (f item) value :=
  exists_of_forall₂ h.forall₂_of_mapM

/-- If what is looked at in each value is known from the item, then so it is for all values. -/
theorem Gives.map_eq_of_mapM
    {γ : Type} {f : α → Reporting β} {items : List α} {values : List β}
    {before after : Diagnostics} {view : β → γ} {known : α → γ}
    (h : Gives (items.mapM f) before values after)
    (hview : ∀ item value, Yields (f item) value → view value = known item) :
    values.map view = items.map known := by
  rw [← List.forall₂_eq_eq_eq, List.forall₂_map_left_iff, List.forall₂_map_right_iff]
  exact List.Forall₂.flip (h.forall₂_of_mapM.imp hview)

/-- What the steps for all items note is noted by the step for one of them. -/
theorem Gives.mem_or_of_mapM
    {f : α → Reporting β} {items : List α} {values : List β} {before after : Diagnostics}
    {note : Diagnostic}
    (h : Gives (items.mapM f) before values after)
    (hnote : note ∈ after) :
    note ∈ before ∨ ∃ item ∈ items, ∃ first value last,
      Gives (f item) first value last ∧ note ∉ first ∧ note ∈ last := by
  induction items generalizing before values with
  | nil =>
      simp at h
      exact Or.inl (h.2 ▸ hnote)
  | cons item items ih =>
      rw [List.mapM_cons, gives_bind_iff] at h
      obtain ⟨head, middle, hhead, h⟩ := h
      rw [gives_bind_iff] at h
      obtain ⟨tail, last, htail, h⟩ := h
      obtain ⟨rfl, rfl⟩ := gives_pure_iff.1 h
      rcases ih htail with hmiddle | ⟨found, hfound, hnoted⟩
      · by_cases hbefore : note ∈ before
        · exact Or.inl hbefore
        · exact Or.inr ⟨item, List.mem_cons_self, before, head, middle, hhead, hbefore, hmiddle⟩
      · exact Or.inr ⟨found, List.mem_cons_of_mem _ hfound, hnoted⟩

/-- Wherever a step gives a value, it notes the diagnostics with a property, unless they are there
already, and no others. -/
def Notes
    (noted : Diagnostic → Prop)
    (step : Reporting α) : Prop :=
  ∀ before value after, Gives step before value after →
    ∀ note, note ∈ after ↔ note ∈ before ∨ noted note

theorem notes_throw
    (noted : Diagnostic → Prop)
    (error : BuildError) :
    Notes noted (throw error : Reporting α) :=
  fun _ _ _ h => absurd h not_gives_throw

theorem notes_pure
    (value : α) :
    Notes (fun _ => False) (pure value : Reporting α) := by
  intro before result after h note
  rw [(gives_pure_iff.1 h).2, or_false]

theorem notes_report
    (code path message : String) :
    Notes (fun note => note = ⟨code, path, message⟩) (report code path message) := by
  intro before value after h note
  rw [← gives_report_iff.1 h, Diagnostics.mem_report_iff]

theorem Notes.map
    {noted : Diagnostic → Prop} {step : Reporting α}
    (h : Notes noted step)
    (f : α → β) :
    Notes noted (f <$> step) := by
  intro before result after hgives
  obtain ⟨value, hvalue, -⟩ := gives_map_iff.1 hgives
  exact h before value after hvalue

theorem Notes.congr
    {noted noted' : Diagnostic → Prop} {step : Reporting α}
    (h : Notes noted step)
    (hsame : ∀ note, noted note ↔ noted' note) :
    Notes noted' step := by
  intro before value after hgives note
  rw [h before value after hgives, hsame]

/-- The steps for all items note what one of them notes. -/
theorem Notes.mapM
    {noted : α → Diagnostic → Prop} {f : α → Reporting β}
    (h : ∀ item, Notes (noted item) (f item))
    (items : List α) :
    Notes (fun note => ∃ item ∈ items, noted item note) (items.mapM f) := by
  induction items with
  | nil =>
      exact (notes_pure []).congr (by simp)
  | cons item items ih =>
      intro before values after hgives note
      rw [List.mapM_cons, gives_bind_iff] at hgives
      obtain ⟨head, middle, hhead, hgives⟩ := hgives
      rw [gives_bind_iff] at hgives
      obtain ⟨tail, last, htail, hgives⟩ := hgives
      obtain ⟨rfl, rfl⟩ := gives_pure_iff.1 hgives
      rw [ih _ _ _ htail, h item _ _ _ hhead, or_assoc]
      simp

/-- If the steps for all items fail, then the step for one of them does. -/
theorem Fails.of_mapM
    {f : α → Reporting β} {items : List α} {before after : Diagnostics} {error : BuildError}
    (h : Fails (items.mapM f) before error after) :
    ∃ item ∈ items, ∃ first last, Fails (f item) first error last := by
  induction items generalizing before with
  | nil =>
      simp at h
  | cons item items ih =>
      rw [List.mapM_cons, fails_bind_iff] at h
      rcases h with h | ⟨value, middle, -, h⟩
      · exact ⟨item, List.mem_cons_self, before, after, h⟩
      · rw [fails_bind_iff] at h
        rcases h with h | ⟨values, middle', -, h⟩
        · obtain ⟨later, hmem, first, last, hfails⟩ := ih h
          exact ⟨later, List.mem_cons_of_mem _ hmem, first, last, hfails⟩
        · simp at h

theorem exists_fails_mapM
    {f : α → Reporting β} {items : List α} {item : α}
    (hmem : item ∈ items)
    (hfails : ∀ before, ∃ error after, Fails (f item) before error after)
    (before : Diagnostics) :
    ∃ error after, Fails (items.mapM f) before error after := by
  induction items generalizing before with
  | nil =>
      simp at hmem
  | cons head items ih =>
      rw [List.mapM_cons]
      rcases gives_or_fails (f head) before with ⟨value, middle, hgives⟩ | ⟨error, after, h⟩
      · have htail : item ∈ items := by
          rcases List.mem_cons.1 hmem with rfl | htail
          · obtain ⟨error, after, h⟩ := hfails before
            exact absurd h hgives.not_fails
          · exact htail
        obtain ⟨error, after, h⟩ := ih htail middle
        refine ⟨error, after, fails_bind_iff.2 (Or.inr ⟨value, middle, hgives, ?_⟩)⟩
        exact fails_bind_iff.2 (Or.inl h)
      · exact ⟨error, after, fails_bind_iff.2 (Or.inl h)⟩

/-! ## Pairs of steps -/

section Related

variable {γ δ : Type}

theorem yields_bind
    {step : Reporting α} {next : α → Reporting β} {result : β}
    (h : Yields (step >>= next) result) :
    ∃ value, Yields step value ∧ Yields (next value) result := by
  obtain ⟨before, after, h⟩ := h
  obtain ⟨value, middle, hstep, hnext⟩ := gives_bind_iff.1 h
  exact ⟨value, hstep.yields, hnext.yields⟩

theorem yields_map_iff
    {step : Reporting α} {f : α → β} {result : β} :
    Yields (f <$> step) result ↔ ∃ value, Yields step value ∧ f value = result := by
  constructor
  · rintro ⟨before, after, h⟩
    obtain ⟨value, hvalue, rfl⟩ := gives_map_iff.1 h
    exact ⟨value, hvalue.yields, rfl⟩
  · rintro ⟨value, ⟨before, after, hvalue⟩, rfl⟩
    exact ⟨before, after, gives_map_iff.2 ⟨value, hvalue, rfl⟩⟩

/-- What two steps give is related, whatever was noted before each of them and whatever each of
them notes.  Nothing is said where one of them fails. -/
def Related
    (R : α → β → Prop)
    (first : Reporting α)
    (second : Reporting β) : Prop :=
  ∀ value value', Yields first value → Yields second value' → R value value'

theorem related_pure
    {R : α → β → Prop} {value : α} {value' : β}
    (h : R value value') :
    Related R (pure value) (pure value') := by
  rintro found found' ⟨_, _, hfound⟩ ⟨_, _, hfound'⟩
  rw [← (gives_pure_iff.1 hfound).1, ← (gives_pure_iff.1 hfound').1]
  exact h

/-- An orderly step gives the same whenever it gives something. -/
theorem Orderly.related
    {allowed : Diagnostic → Prop} {step : Reporting α}
    (h : Orderly allowed step) :
    Related Eq step step :=
  fun _ _ hfirst hsecond => h.yields_unique hfirst hsecond

theorem related_ofExcept
    (result : Except BuildError α) :
    Related Eq (ofExcept result) (ofExcept result) := by
  have horderly : Orderly (fun _ => True) (ofExcept result) := orderly_ofExcept result
  exact horderly.related

theorem Related.mono
    {R S : α → β → Prop} {first : Reporting α} {second : Reporting β}
    (h : Related R first second)
    (hRS : ∀ value value', R value value' → S value value') :
    Related S first second :=
  fun value value' hvalue hvalue' => hRS value value' (h value value' hvalue hvalue')

theorem Related.bind
    {R : α → β → Prop} {S : γ → δ → Prop} {first : Reporting α} {second : Reporting β}
    {next : α → Reporting γ} {next' : β → Reporting δ}
    (h : Related R first second)
    (hnext : ∀ value value', R value value' → Related S (next value) (next' value')) :
    Related S (first >>= next) (second >>= next') := by
  intro result result' hresult hresult'
  obtain ⟨value, hvalue, hresult⟩ := yields_bind hresult
  obtain ⟨value', hvalue', hresult'⟩ := yields_bind hresult'
  exact hnext value value' (h value value' hvalue hvalue') result result' hresult hresult'

/-- The same beginning leads to the same value on both sides. -/
theorem related_ofExcept_bind
    {S : γ → δ → Prop} {result : Except BuildError α} {next : α → Reporting γ}
    {next' : α → Reporting δ}
    (hnext : ∀ value, Related S (next value) (next' value)) :
    Related S (ofExcept result >>= next) (ofExcept result >>= next') :=
  (related_ofExcept result).bind fun value _ heq => heq ▸ hnext value

theorem Related.mapM
    {R : α → β → Prop} {S : γ → δ → Prop} {f : α → Reporting γ} {g : β → Reporting δ}
    {items : List α} {items' : List β}
    (hitems : List.Forall₂ R items items')
    (h : ∀ item item', R item item' → Related S (f item) (g item')) :
    Related (List.Forall₂ S) (items.mapM f) (items'.mapM g) := by
  induction hitems with
  | nil =>
      exact related_pure .nil
  | cons hitem _ ih =>
      rw [List.mapM_cons, List.mapM_cons]
      refine (h _ _ hitem).bind fun value value' hvalue => ?_
      exact ih.bind fun values values' hvalues => related_pure (.cons hvalue hvalues)

theorem related_mapM
    {S : γ → δ → Prop} {f : α → Reporting γ} {g : α → Reporting δ}
    (items : List α)
    (h : ∀ item, Related S (f item) (g item)) :
    Related (List.Forall₂ S) (items.mapM f) (items.mapM g) :=
  Related.mapM (List.forall₂_same.2 fun _ _ => rfl) fun item _ heq => heq ▸ h item

end Related

end Reporting
end FeatureProbes
