import BlockShading.Proofs.Decoration.Runs
import BlockShading.Theme.Session

/-!
# Courses of theme sessions

A course is a session with what happened in it: the palettes that were taken from it and the
answers of its steps. One step replaces the background, the colors, both or nothing, and it always
leaves a palette that is drawn anew from the two. Main statement: after any steps the palette is
that of the background and of the colors given last, whichever steps gave them, and nothing that
was taken from the session earlier has changed.
-/

namespace BlockShading

theorem Palette.eq_make (palette : Palette) :
    palette = Palette.make palette.background palette.colors := by
  obtain ⟨background, colors, rendered, rfl⟩ := palette
  rfl

namespace Pass

theorem color_of_mem_annotate {setting : Setting} {decoration : Decoration}
    (h : decoration ∈ (annotate setting).decorations.toList) :
    decoration.color = setting.palette.render decoration.category := by
  have hrun : (annotate setting).decorations.toList =
      (setting.tree.preorder.filterMap setting.tree.handle?).flatMap setting.colored :=
    decorations_run setting #[] _
  rw [hrun] at h
  obtain ⟨handle, -, hcolored⟩ := List.mem_flatMap.mp h
  rw [Palette.render_eq_blendOver]
  exact color_of_mem_colored hcolored

end Pass

namespace ThemeSession

inductive Step where
  | changeScheme (background : Color)
  | applyTheme (theme : Theme)
  | replace (palette : Palette)
  /-- The palette in use is taken to be kept. -/
  | hold
  | annotate (tree : SyntaxTree) (around : Surroundings)

inductive Answer where
  | nothing
  | changed (differs : Bool)
  | drawn (pass : Pass.State)

/-- A session, the palettes taken from it, and the answers of its steps, the oldest first. -/
structure Course where
  session : ThemeSession
  held : List Palette
  answers : List Answer

namespace Step

def background? : Step → Option Color
  | changeScheme background => some background
  | applyTheme theme => some theme.background
  | replace palette => some palette.background
  | hold => none
  | annotate _ _ => none

def colors? : Step → Option (PerCategory Color)
  | changeScheme _ => none
  | applyTheme theme => some theme.blocks
  | replace palette => some palette.colors
  | hold => none
  | annotate _ _ => none

def asksRefresh : Step → Bool
  | changeScheme _ => true
  | applyTheme _ => true
  | replace _ => false
  | hold => false
  | annotate _ _ => false

def isHold : Step → Bool
  | hold => true
  | _ => false

def onSession (session : ThemeSession) : Step → ThemeSession
  | changeScheme background => (session.changeScheme background).value.2
  | applyTheme theme => (session.applyTheme theme).value
  | replace palette => session.replace palette
  | hold => session
  | annotate _ _ => session

def answer (session : ThemeSession) : Step → Answer
  | changeScheme background => .changed (session.changeScheme background).value.1
  | applyTheme _ => .nothing
  | replace _ => .nothing
  | hold => .nothing
  | annotate tree around => .drawn (Pass.annotate ⟨tree, session.palette, around⟩)

end Step

namespace Course

variable (course : Course) (step : Step) (steps : List Step)

def start (palette : Palette) : Course := ⟨ThemeSession.start palette, [], []⟩

def next : Course where
  session := step.onSession course.session
  held := course.held ++ if step.isHold then [course.session.palette] else []
  answers := course.answers ++ [step.answer course.session]

def after : Course := steps.foldl next course

theorem after_append (more : List Step) :
    course.after (steps ++ more) = (course.after steps).after more :=
  List.foldl_append ..

/-- A step gives a background or keeps the old one, and the same for the colors; the palette is
drawn from the two in either case. -/
theorem palette_next :
    (course.next step).session.palette =
      Palette.make (step.background?.getD course.session.palette.background)
        (step.colors?.getD course.session.palette.colors) := by
  cases step with
  | changeScheme background => rfl
  | applyTheme theme => rfl
  | replace palette => exact palette.eq_make
  | hold => exact course.session.palette.eq_make
  | annotate tree around => exact course.session.palette.eq_make

theorem refreshes_next :
    (course.next step).session.refreshes =
      course.session.refreshes + if step.asksRefresh then 1 else 0 := by
  cases step <;> rfl

/-- What the last of some steps gives, and `initial` if none of them gives anything. -/
def lastGiven {α : Type} (given? : Step → Option α) (initial : α) (steps : List Step) : α :=
  (steps.reverse.findSome? given?).getD initial

theorem lastGiven_cons {α : Type} (given? : Step → Option α) (initial : α) (step : Step)
    (steps : List Step) :
    lastGiven given? initial (step :: steps) =
      lastGiven given? ((given? step).getD initial) steps := by
  have hone : [step].findSome? given? = given? step := by
    cases h : given? step <;> simp [h]
  unfold lastGiven
  rw [List.reverse_cons, List.findSome?_append, hone]
  cases steps.reverse.findSome? given? <;> rfl

theorem palette_after :
    (course.after steps).session.palette =
      Palette.make (lastGiven Step.background? course.session.palette.background steps)
        (lastGiven Step.colors? course.session.palette.colors steps) := by
  induction steps generalizing course with
  | nil => exact course.session.palette.eq_make
  | cons step rest ih =>
    have hstep := palette_next course step
    rw [lastGiven_cons, lastGiven_cons]
    have hrest := ih (course.next step)
    rw [hstep] at hrest
    exact hrest

theorem refreshes_after :
    (course.after steps).session.refreshes =
      course.session.refreshes + steps.countP Step.asksRefresh := by
  induction steps generalizing course with
  | nil => rfl
  | cons step rest ih =>
    have hrest := ih (course.next step)
    rw [refreshes_next] at hrest
    rw [List.countP_cons]
    exact hrest.trans (by omega)

/-- Palettes that were taken stay, and each palette taken later comes behind them. -/
theorem held_after :
    course.held <+: (course.after steps).held ∧
      (course.after steps).held.length = course.held.length + steps.countP Step.isHold := by
  induction steps generalizing course with
  | nil => exact ⟨List.prefix_refl _, rfl⟩
  | cons step rest ih =>
    obtain ⟨hkept, hlength⟩ := ih (course.next step)
    refine ⟨(List.prefix_append _ _).trans hkept, hlength.trans ?_⟩
    cases hhold : step.isHold with
    | true =>
      simp [next, hhold]
      omega
    | false => simp [next, hhold]

theorem answers_after :
    course.answers <+: (course.after steps).answers ∧
      (course.after steps).answers.length = course.answers.length + steps.length := by
  induction steps generalizing course with
  | nil => exact ⟨List.prefix_refl _, rfl⟩
  | cons step rest ih =>
    obtain ⟨hkept, hlength⟩ := ih (course.next step)
    refine ⟨(List.prefix_append _ _).trans hkept, hlength.trans ?_⟩
    simp [next]
    omega

/-- A palette taken between some steps and others is still there after the others. -/
theorem held_of_hold (before rest : List Step) :
    (course.after (before ++ .hold :: rest)).held[course.held.length +
        before.countP Step.isHold]? = some (course.after before).session.palette := by
  have hlength := (held_after course before).2
  obtain ⟨later, hlater⟩ := (held_after ((course.after before).next .hold) rest).1
  have hheld : (course.after (before ++ .hold :: rest)).held =
      (course.after before).held ++ [(course.after before).session.palette] ++ later := by
    rw [after_append]
    exact hlater.symm
  rw [hheld, ← hlength, List.append_assoc, List.getElem?_append_right (Nat.le_refl _)]
  simp

theorem answer_of_step (before rest : List Step) :
    (course.after (before ++ step :: rest)).answers[course.answers.length + before.length]? =
      some (step.answer (course.after before).session) := by
  have hlength := (answers_after course before).2
  obtain ⟨later, hlater⟩ := (answers_after ((course.after before).next step) rest).1
  have hanswers : (course.after (before ++ step :: rest)).answers =
      (course.after before).answers ++ [step.answer (course.after before).session] ++ later := by
    rw [after_append]
    exact hlater.symm
  rw [hanswers, ← hlength, List.append_assoc, List.getElem?_append_right (Nat.le_refl _)]
  simp

/-- A change of the scheme to the background that is there already leaves the palette as it is. -/
theorem palette_of_same_scheme {background : Color}
    (h : course.session.palette.background = background) :
    (course.next (.changeScheme background)).session.palette = course.session.palette := by
  rw [palette_next, ← h]
  exact course.session.palette.eq_make.symm

/-- After any steps the palette is drawn from the background and the colors given last, and every
change of scheme and every theme has asked for a refresh. A change of scheme tells whether the
background is a different one and else changes nothing. Palettes taken from the session stay as
they were, and a pass has the colors of the palette that was in use when it began. -/
theorem after_shows_last_given (palette : Palette) (steps : List Step) :
    let course := (start palette).after steps
    let background := lastGiven Step.background? palette.background steps
    let colors := lastGiven Step.colors? palette.colors steps
    course.session.palette = Palette.make background colors ∧
      (∀ category, course.session.palette.render category =
        (colors.get category).blendOver background) ∧
      course.session.refreshes = steps.countP Step.asksRefresh ∧
      course.held.length = steps.countP Step.isHold ∧
      ∀ before step rest, steps = before ++ step :: rest →
        let earlier := (start palette).after before
        let answer := course.answers[before.length]?
        (∀ given, step = .changeScheme given →
          ∃ differs, answer = some (.changed differs) ∧
            (differs = true ↔ given ≠ earlier.session.palette.background) ∧
            (differs = false → (earlier.next step).session.palette = earlier.session.palette)) ∧
        (step = .hold →
          course.held[before.countP Step.isHold]? = some earlier.session.palette) ∧
        ∀ tree around, step = .annotate tree around →
          ∃ pass, answer = some (.drawn pass) ∧
            pass = Pass.annotate ⟨tree, earlier.session.palette, around⟩ ∧
            ∀ decoration ∈ pass.decorations.toList,
              decoration.color = earlier.session.palette.render decoration.category := by
  intro course background colors
  have hpalette : course.session.palette = Palette.make background colors :=
    palette_after (start palette) steps
  refine ⟨hpalette, ?_, ?_, ?_, ?_⟩
  · intro category
    rw [Palette.render_eq_blendOver, hpalette]
    rfl
  · have hcount := refreshes_after (start palette) steps
    exact hcount.trans (Nat.zero_add _)
  · have hcount := (held_after (start palette) steps).2
    exact hcount.trans (Nat.zero_add _)
  · rintro before step rest rfl earlier answer
    have hanswer : answer = some (step.answer earlier.session) := by
      have hat := answer_of_step (start palette) step before rest
      rw [← hat]
      exact congrArg (course.answers[·]?) (Nat.zero_add _).symm
    refine ⟨?_, ?_, ?_⟩
    · rintro given rfl
      refine ⟨earlier.session.palette.background != given, hanswer, ?_, ?_⟩
      · rw [bne_iff_ne, ne_comm]
      · intro hsame
        have hbackground : earlier.session.palette.background = given := by simpa using hsame
        exact palette_of_same_scheme earlier hbackground
    · rintro rfl
      have hat := held_of_hold (start palette) before rest
      rw [← hat]
      exact congrArg (course.held[·]?) (Nat.zero_add _).symm
    · rintro tree around rfl
      exact ⟨_, hanswer, rfl, fun decoration => Pass.color_of_mem_annotate⟩

end Course

end ThemeSession

end BlockShading
