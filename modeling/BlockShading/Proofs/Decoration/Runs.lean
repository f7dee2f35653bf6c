import BlockShading.Decoration.Pass

/-!
# What a pass adds up to

What a visit adds depends on the node alone and not on what was visited before: its colored spans,
and one entry for each count of the report. A pass is the sum of its visits. Main statement: the
decorations and the report of a pass as functions of the list of nodes, from which passes can be
cut in two and nodes that are skipped can be left out.
-/

namespace BlockShading.Pass

/-- The sum of two reports, the violations of the first in front. -/
instance : Add Report where
  add a b :=
    ⟨a.visited + b.visited, a.matched + b.matched, a.emitted + b.emitted,
      a.violations ++ b.violations⟩

theorem Report.add_def (a b : Report) :
    a + b = ⟨a.visited + b.visited, a.matched + b.matched, a.emitted + b.emitted,
      a.violations ++ b.violations⟩ := rfl

theorem Report.add_assoc (a b c : Report) : a + b + c = a + (b + c) := by
  simp [Report.add_def, Nat.add_assoc, List.append_assoc]

theorem Report.empty_add (a : Report) : Report.empty + a = a := by
  simp [Report.add_def, Report.empty]

namespace Setting

variable (setting : Setting)

/-- A span in the color of its category over the background, boxed and of regular weight. -/
def paint (span : Span) : Decoration where
  extent := span.extent
  color := (setting.palette.colors.get span.category).blendOver setting.palette.background
  category := span.category
  style := ⟨true, false⟩

/-- The painted spans of a node; none if the node cannot be shaded. -/
def colored (handle : Handle) : List Decoration :=
  match handle.spans setting.tree setting.around with
  | .ok spans => spans.map setting.paint
  | .error _ => []

def fault? (handle : Handle) : Option SpanError :=
  match handle.spans setting.tree setting.around with
  | .ok _ => none
  | .error error => some error

/-- Whether a node is of a kind that is shaded, and nothing is wrong with it. -/
def succeeds (handle : Handle) : Bool :=
  handle.node.kind.isShaded && (setting.fault? handle).isNone

def account (handles : List Handle) : Report where
  visited := handles.length
  matched := handles.countP fun handle => handle.node.kind.isShaded
  emitted := (handles.flatMap setting.colored).length
  violations := handles.filterMap setting.fault?

theorem decorate_eq_paint : setting.decorate = setting.paint := by
  funext span
  rw [decorate, Palette.render_eq_blendOver]
  rfl

variable {setting} {handle : Handle} {error : SpanError}

theorem spans_of_not_isShaded (h : handle.node.kind.isShaded = false) :
    handle.spans setting.tree setting.around = .ok [] := by
  have hnone : handle.node.kind.category? = none := by simpa [NodeKind.isShaded] using h
  simp [Handle.spans, hnone]

theorem fault?_eq_some_iff :
    setting.fault? handle = some error ↔
      handle.spans setting.tree setting.around = .error error := by
  unfold fault?
  cases handle.spans setting.tree setting.around <;> simp

theorem isShaded_of_fault (h : setting.fault? handle = some error) :
    handle.node.kind.isShaded = true := by
  rw [fault?_eq_some_iff] at h
  cases hshaded : handle.node.kind.isShaded with
  | true => rfl
  | false => simp [spans_of_not_isShaded hshaded] at h

theorem colored_of_fault (h : setting.fault? handle = some error) :
    setting.colored handle = [] := by
  rw [fault?_eq_some_iff] at h
  simp [colored, h]

theorem account_append (a b : List Handle) :
    setting.account (a ++ b) = setting.account a + setting.account b := by
  simp [account, Report.add_def]

/-- Each node of a kind that is shaded either succeeds or is reported once. -/
theorem matched_account (handles : List Handle) :
    (setting.account handles).matched =
      handles.countP setting.succeeds + (setting.account handles).violations.length := by
  induction handles with
  | nil => rfl
  | cons handle rest ih =>
    simp only [account, List.countP_cons, List.filterMap_cons] at ih ⊢
    cases hfault : setting.fault? handle with
    | none => simp [succeeds, hfault]; omega
    | some error => simp [succeeds, hfault, isShaded_of_fault hfault]; omega

end Setting

/-- What a node is colored in depends on the palette and the category alone. -/
theorem color_of_mem_colored {setting : Setting} {handle : Handle} {decoration : Decoration}
    (h : decoration ∈ setting.colored handle) :
    decoration.color =
      (setting.palette.colors.get decoration.category).blendOver setting.palette.background := by
  unfold Setting.colored at h
  split at h
  · obtain ⟨span, -, rfl⟩ := List.mem_map.mp h
    rfl
  · cases h

variable (setting : Setting)

/-- A visit adds the colored spans of the node and its own account to what is there. -/
theorem visit_adds (state : State) (handle : Handle) :
    (visit setting state handle).decorations.toList =
        state.decorations.toList ++ setting.colored handle ∧
      (visit setting state handle).report = state.report + setting.account [handle] := by
  unfold visit
  cases hshaded : handle.node.kind.isShaded with
  | false =>
    have hspans : handle.spans setting.tree setting.around = .ok [] :=
      Setting.spans_of_not_isShaded hshaded
    simp [State.pass, Setting.colored, Setting.account, Setting.fault?, Report.add_def, hspans,
      hshaded]
  | true =>
    cases hspans : handle.spans setting.tree setting.around <;>
      simp [State.skip, State.emit, Setting.colored, Setting.account, Setting.fault?,
        Setting.decorate_eq_paint, Report.add_def, hspans, hshaded]

/-- What one visit adds does not depend on the state, so the visits of a pass add up. -/
theorem foldl_visit_adds (state : State) (handles : List Handle) :
    (handles.foldl (visit setting) state).decorations.toList =
        state.decorations.toList ++ handles.flatMap setting.colored ∧
      (handles.foldl (visit setting) state).report = state.report + setting.account handles := by
  induction handles generalizing state with
  | nil => simp [Setting.account, Report.add_def]
  | cons handle rest ih =>
    obtain ⟨hdrawn, hreport⟩ := visit_adds setting state handle
    obtain ⟨hrest, hrestReport⟩ := ih (visit setting state handle)
    refine ⟨?_, ?_⟩
    · rw [List.foldl_cons, hrest, hdrawn, List.flatMap_cons, List.append_assoc]
    · rw [List.foldl_cons, hrestReport, hreport, Report.add_assoc, ← Setting.account_append,
        List.singleton_append]

variable (drawn : Array Decoration) (handles : List Handle)

theorem decorations_run :
    (run setting drawn handles).decorations.toList =
      drawn.toList ++ handles.flatMap setting.colored :=
  (foldl_visit_adds setting (State.start drawn) handles).1

theorem report_run : (run setting drawn handles).report = setting.account handles := by
  have h := (foldl_visit_adds setting (State.start drawn) handles).2
  rwa [State.start, Report.empty_add] at h

/-- Leaving out a node that is skipped takes one violation from the report and nothing from what
is drawn. -/
theorem run_without_skipped {a b : List Handle} {handle : Handle} {error : SpanError}
    (hfault : setting.fault? handle = some error) :
    let all := run setting drawn (a ++ handle :: b)
    let others := run setting drawn (a ++ b)
    others.decorations = all.decorations ∧ all.report.emitted = others.report.emitted ∧
      all.report.visited = others.report.visited + 1 ∧
      all.report.matched = others.report.matched + 1 ∧
      all.report.violations = a.filterMap setting.fault? ++ error :: b.filterMap setting.fault? ∧
      others.report.violations = a.filterMap setting.fault? ++ b.filterMap setting.fault? := by
  intro all others
  refine ⟨?_, ?_⟩
  · refine Array.toList_inj.mp ?_
    rw [decorations_run, decorations_run]
    simp [Setting.colored_of_fault hfault]
  · rw [report_run, report_run]
    simp [Setting.account, hfault, Setting.colored_of_fault hfault,
      Setting.isShaded_of_fault hfault]
    omega

/-- A pass adds the spans of its nodes in order, each in the color of its category over the
background, and counts each node once. Two passes in turn are one pass over both lists, and a node
that is skipped leaves no trace but its violation. -/
theorem run_adds_up (setting : Setting) (drawn : Array Decoration) (handles : List Handle) :
    let state := run setting drawn handles
    let palette := setting.palette
    state.decorations.toList = drawn.toList ++ handles.flatMap (fun handle =>
        match handle.spans setting.tree setting.around with
        | .ok spans => spans.map fun span =>
            ⟨span.extent, (palette.colors.get span.category).blendOver palette.background,
              span.category, ⟨true, false⟩⟩
        | .error _ => []) ∧
      state.report.visited = handles.length ∧
      state.report.matched = handles.countP (fun handle => handle.node.kind.isShaded) ∧
      state.decorations.size = drawn.size + state.report.emitted ∧
      state.report.violations = handles.filterMap setting.fault? ∧
      state.report.matched =
        handles.countP setting.succeeds + state.report.violations.length ∧
      (∀ a b, handles = a ++ b →
        let first := run setting drawn a
        let second := run setting first.decorations b
        state.decorations = second.decorations ∧ state.report = first.report + second.report) ∧
      ∀ a handle b error, handles = a ++ handle :: b →
        handle.spans setting.tree setting.around = .error error →
        let before := run setting drawn a
        let others := run setting drawn (a ++ b)
        (run setting drawn (a ++ [handle])).decorations = before.decorations ∧
          others.decorations = state.decorations ∧
          state.report.emitted = others.report.emitted ∧
          state.report.visited = others.report.visited + 1 ∧
          state.report.matched = others.report.matched + 1 ∧
          state.report.violations =
            a.filterMap setting.fault? ++ error :: b.filterMap setting.fault? ∧
          others.report.violations =
            a.filterMap setting.fault? ++ b.filterMap setting.fault? := by
  intro state palette
  have hdrawn : state.decorations.toList = drawn.toList ++ handles.flatMap setting.colored :=
    decorations_run setting drawn handles
  have hreport : state.report = setting.account handles := report_run setting drawn handles
  refine ⟨hdrawn, ?_, ?_, ?_, ?_, ?_, ?_, ?_⟩
  · rw [hreport]; rfl
  · rw [hreport]; rfl
  · rw [hreport, ← Array.length_toList, hdrawn, List.length_append, Array.length_toList]
    rfl
  · rw [hreport]; rfl
  · rw [hreport]; exact Setting.matched_account handles
  · rintro a b rfl first second
    refine ⟨Array.toList_inj.mp ?_, ?_⟩
    · simp only [state, first, second, decorations_run, List.flatMap_append, List.append_assoc]
    · simp only [hreport, first, second, report_run, Setting.account_append]
  · rintro a handle b error rfl hspans before others
    have hfault := Setting.fault?_eq_some_iff.mpr hspans
    obtain ⟨halone, -⟩ := run_without_skipped setting drawn (a := a) (b := []) hfault
    rw [List.append_nil] at halone
    exact ⟨halone.symm, run_without_skipped setting drawn hfault⟩

/-- A class of which only the keyword is there, so that nothing of it follows the keyword. -/
def bareClass : Handle := ⟨1, ⟨.classDecl, ⟨0, 5⟩, some 0, [2], {}⟩⟩

def lastStatement : Handle := ⟨3, ⟨.expressionStatement, ⟨6, 8⟩, some 0, [], {}⟩⟩

def bareClassText : SyntaxTree where
  source := "class;x;"
  nodes :=
    #[⟨.other, ⟨0, 8⟩, none, [1, 3], {}⟩, bareClass.node, ⟨.keyword, ⟨0, 5⟩, some 1, [], {}⟩,
      lastStatement.node]

theorem run_adds_up_bareClass :
    let setting : Setting :=
      ⟨bareClassText, .stock ⟨0, 0, 0, 255⟩, ⟨LineIndex.ofString bareClassText.source, true⟩⟩
    let error : SpanError := .outsideExtent 1 .classDecl ⟨0, 6⟩ ⟨0, 5⟩
    let state := run setting #[] [lastStatement, bareClass, lastStatement]
    bareClass.spans bareClassText setting.around = .error error ∧
      state.decorations = (run setting #[] [lastStatement, lastStatement]).decorations ∧
      state.report = ⟨3, 3, 2, [error]⟩ := by
  intro setting error state
  have hspans : bareClass.spans bareClassText setting.around = .error error := rfl
  obtain ⟨-, -, -, -, -, -, -, hwithout⟩ :=
    run_adds_up setting #[] [lastStatement, bareClass, lastStatement]
  obtain ⟨-, hothers, -⟩ := hwithout [lastStatement] bareClass [lastStatement] error rfl hspans
  exact ⟨hspans, hothers.symm, by decide +kernel⟩

end BlockShading.Pass
