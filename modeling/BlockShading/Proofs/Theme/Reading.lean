import BlockShading.Theme.Basic

/-!
# Themes from their written form

The colors of a theme are read one after the other into a collection that begins with the stock
colors. One step replaces the color of its own category or stops with an error that names it. Main
statement: the theme has each color that is written for it under its own category and the stock
color elsewhere, and if there is none, the first text that is not a color is the cause.
-/

namespace BlockShading

theorem Category.mem_all (c : Category) : c ∈ Category.all := by
  cases c <;> decide

/-- The texts of a theme that are to be colors, each with the name of its field, in the order in
which they are looked at. -/
def ThemeData.colorTexts (data : ThemeData) : List (String × String) :=
  [("blocks.import", data.blocks.importDecl), ("blocks.method", data.blocks.method),
    ("blocks.statement", data.blocks.statement), ("blocks.class", data.blocks.classDecl),
    ("blocks.condition", data.blocks.condition),
    ("editor.background", some data.background)].filterMap fun entry => entry.2.map (entry.1, ·)

namespace Theme

variable {data : ThemeData} {blocks after : PerCategory Color} {c : Category} {e : ThemeError}
  {cs : List Category} {theme : Theme}

def IsColor (text : String) : Prop := ∃ color, Color.ofHex text = .ok color

theorem readBlock_eq_ok (h : readBlock data blocks c = .ok after) :
    (data.blocks.get c = none ∧ after = blocks) ∨
      ∃ text color, data.blocks.get c = some text ∧ Color.ofHex text = .ok color ∧
        after = blocks.set c color := by
  unfold readBlock at h
  split at h
  · next habsent =>
    cases h
    exact Or.inl ⟨habsent, rfl⟩
  · next text htext =>
    split at h
    · cases h
    · next color hcolor =>
      cases h
      exact Or.inr ⟨text, color, htext, hcolor, rfl⟩

theorem readBlock_eq_error (h : readBlock data blocks c = .error e) :
    ∃ text cause, data.blocks.get c = some text ∧ Color.ofHex text = .error cause ∧
      e = .block c cause := by
  unfold readBlock at h
  split at h
  · cases h
  · next text htext =>
    split at h
    · next cause hcause =>
      cases h
      exact ⟨text, cause, htext, hcause, rfl⟩
    · cases h

/-- The color of a category after its own step: the one written for it, or the one before. -/
theorem get_of_readBlock (h : readBlock data blocks c = .ok after) :
    (data.blocks.get c = none → after.get c = blocks.get c) ∧
      (∀ text, data.blocks.get c = some text → Color.ofHex text = .ok (after.get c)) ∧
      ∀ d, d ≠ c → after.get d = blocks.get d := by
  obtain ⟨habsent, rfl⟩ | ⟨written, color, hwritten, hcolor, rfl⟩ := readBlock_eq_ok h
  · refine ⟨fun _ => rfl, fun text htext => ?_, fun _ _ => rfl⟩
    rw [habsent] at htext
    cases htext
  · refine ⟨fun habsent => ?_, fun text htext => ?_, fun d hd => ?_⟩
    · rw [habsent] at hwritten
      cases hwritten
    · rw [hwritten] at htext
      cases htext
      rw [PerCategory.get_set_self, hcolor]
    · exact PerCategory.get_set_of_ne blocks color hd

/-- Some categories have been read: the colors written for them are in place, and all other colors
are what they were. -/
structure Replaced (data : ThemeData) (cs : List Category) (blocks after : PerCategory Color) :
    Prop where
  kept : ∀ c, data.blocks.get c = none ∨ c ∉ cs → after.get c = blocks.get c
  written : ∀ c ∈ cs, ∀ text, data.blocks.get c = some text →
    Color.ofHex text = .ok (after.get c)

theorem replaced_of_foldlM (h : cs.foldlM (readBlock data) blocks = .ok after) :
    Replaced data cs blocks after := by
  induction cs generalizing blocks with
  | nil =>
    cases h
    exact ⟨fun _ _ => rfl, by simp⟩
  | cons c cs ih =>
    rw [List.foldlM_cons] at h
    cases hstep : readBlock data blocks c with
    | error e =>
      rw [hstep] at h
      cases h
    | ok middle =>
      rw [hstep] at h
      have hrest := ih h
      obtain ⟨habsent, hwritten, hother⟩ := get_of_readBlock hstep
      constructor
      case kept =>
        intro d hd
        have hd' : data.blocks.get d = none ∨ d ∉ cs :=
          hd.imp_right fun hd hmem => hd (List.mem_cons_of_mem c hmem)
        rw [hrest.kept d hd']
        by_cases hdc : d = c
        · subst hdc
          exact habsent (hd.resolve_right (by simp))
        · exact hother d hdc
      case written =>
        intro d hd text htext
        by_cases hmem : d ∈ cs
        · exact hrest.written d hmem text htext
        · -- The first category is not among the others, which leave its color alone.
          have hdc : d = c := (List.mem_cons.mp hd).resolve_right hmem
          subst hdc
          rw [hrest.kept d (Or.inr hmem)]
          exact hwritten text htext

theorem first_of_foldlM_error (h : cs.foldlM (readBlock data) blocks = .error e) :
    ∃ before c rest text cause, cs = before ++ c :: rest ∧
      (∀ d ∈ before, ∀ text, data.blocks.get d = some text → IsColor text) ∧
      data.blocks.get c = some text ∧ Color.ofHex text = .error cause ∧ e = .block c cause := by
  induction cs generalizing blocks with
  | nil => cases h
  | cons c cs ih =>
    rw [List.foldlM_cons] at h
    cases hstep : readBlock data blocks c with
    | error fault =>
      rw [hstep] at h
      cases h
      obtain ⟨text, cause, htext, hcause, rfl⟩ := readBlock_eq_error hstep
      exact ⟨[], c, cs, text, cause, rfl, by simp, htext, hcause, rfl⟩
    | ok middle =>
      rw [hstep] at h
      obtain ⟨before, d, rest, text, cause, rfl, hbefore, hd⟩ := ih h
      refine ⟨c :: before, d, rest, text, cause, rfl, ?_, hd⟩
      rw [List.forall_mem_cons]
      exact ⟨fun text htext => ⟨_, (get_of_readBlock hstep).2.1 text htext⟩, hbefore⟩

theorem colorTexts_eq (data : ThemeData) :
    data.colorTexts =
      (Category.all.filterMap fun c => (data.blocks.get c).map ("blocks." ++ c.name, ·)) ++
        [("editor.background", data.background)] := by
  change ((Category.all.map fun c => ("blocks." ++ c.name, data.blocks.get c)) ++
    [("editor.background", some data.background)]).filterMap _ = _
  rw [List.filterMap_append, List.filterMap_map]
  rfl

theorem ofData_eq_ok (h : ofData data = .ok theme) :
    Replaced data Category.all Category.baseColors theme.blocks ∧
      Color.ofHex data.background = .ok theme.background ∧ theme.name = data.name := by
  unfold ofData at h
  split at h
  · cases h
  · next hread =>
    split at h
    · cases h
    · next background hbackground =>
      cases h
      exact ⟨replaced_of_foldlM hread, hbackground, rfl⟩

/-- Without a theme there is a first text that is not a color, and the error is its own behind the
name of its field. -/
theorem ofData_eq_error (h : ofData data = .error e) :
    ∃ before field text rest cause, data.colorTexts = before ++ (field, text) :: rest ∧
      (∀ entry ∈ before, IsColor entry.2) ∧ Color.ofHex text = .error cause ∧
      e.message = field ++ ": " ++ cause.message := by
  rw [colorTexts_eq]
  unfold ofData at h
  split at h
  · next fault hfault =>
    cases h
    obtain ⟨before, c, rest, text, cause, hall, hbefore, htext, hcause, rfl⟩ :=
      first_of_foldlM_error hfault
    rw [hall, List.filterMap_append, List.filterMap_cons, htext, List.append_assoc]
    refine ⟨_, _, text, _, cause, rfl, ?_, hcause, rfl⟩
    intro entry hentry
    obtain ⟨d, hd, hmap⟩ := List.mem_filterMap.mp hentry
    obtain ⟨written, hwritten, rfl⟩ := Option.map_eq_some_iff.mp hmap
    exact hbefore d hd written hwritten
  · next hread =>
    split at h
    · next cause hcause =>
      cases h
      refine ⟨_, _, data.background, [], cause, rfl, ?_, hcause, rfl⟩
      intro entry hentry
      obtain ⟨c, hc, hmap⟩ := List.mem_filterMap.mp hentry
      obtain ⟨text, htext, rfl⟩ := Option.map_eq_some_iff.mp hmap
      exact ⟨_, (replaced_of_foldlM hread).written c hc text htext⟩
    · cases h

theorem mem_colorTexts {field text : String} (h : (field, text) ∈ data.colorTexts) :
    (∃ c, data.blocks.get c = some text) ∨ text = data.background := by
  rw [colorTexts_eq] at h
  rcases List.mem_append.mp h with hblock | hbackground
  · obtain ⟨c, -, hmap⟩ := List.mem_filterMap.mp hblock
    obtain ⟨written, hwritten, heq⟩ := Option.map_eq_some_iff.mp hmap
    cases heq
    exact Or.inl ⟨c, hwritten⟩
  · cases List.mem_singleton.mp hbackground
    exact Or.inr rfl

/-- A theme is read exactly if all its texts are colors. Then it has its name and its background,
every category has the color written for it or else its stock color, and is drawn with it.
Otherwise the error tells the field and the fault of the first text that is not a color. -/
theorem ofData_outcome (data : ThemeData) :
    ((∃ theme, ofData data = .ok theme) ↔
      (∀ c text, data.blocks.get c = some text → IsColor text) ∧ IsColor data.background) ∧
      (∀ theme, ofData data = .ok theme →
        theme.name = data.name ∧ Color.ofHex data.background = .ok theme.background ∧
          ∀ c, (∀ text, data.blocks.get c = some text →
              Color.ofHex text = .ok (theme.blocks.get c)) ∧
            (data.blocks.get c = none → theme.blocks.get c = c.baseColor) ∧
            theme.palette.render c = (theme.blocks.get c).blendOver theme.background) ∧
      ∀ e, ofData data = .error e →
        ∃ before field text rest cause, data.colorTexts = before ++ (field, text) :: rest ∧
          (∀ entry ∈ before, IsColor entry.2) ∧ Color.ofHex text = .error cause ∧
          e.message = field ++ ": " ++ cause.message := by
  refine ⟨⟨?_, ?_⟩, fun theme h => ?_, fun e h => ofData_eq_error h⟩
  · rintro ⟨theme, h⟩
    obtain ⟨hblocks, hbackground, -⟩ := ofData_eq_ok h
    exact ⟨fun c text htext => ⟨_, hblocks.written c c.mem_all text htext⟩, _, hbackground⟩
  · rintro ⟨hblocks, background, hbackground⟩
    cases h : ofData data with
    | ok theme => exact ⟨theme, rfl⟩
    | error e =>
      obtain ⟨before, field, text, rest, cause, hsplit, -, hcause, -⟩ := ofData_eq_error h
      have hmem : (field, text) ∈ data.colorTexts := by simp [hsplit]
      obtain ⟨c, htext⟩ | rfl := mem_colorTexts hmem
      · obtain ⟨color, hcolor⟩ := hblocks c text htext
        rw [hcause] at hcolor
        cases hcolor
      · rw [hcause] at hbackground
        cases hbackground
  · obtain ⟨hblocks, hbackground, hname⟩ := ofData_eq_ok h
    refine ⟨hname, hbackground, fun c => ⟨hblocks.written c c.mem_all, fun habsent => ?_, ?_⟩⟩
    · rw [hblocks.kept c (Or.inl habsent)]
      exact PerCategory.get_ofFn _ c
    · exact Palette.render_eq_blendOver theme.palette c

/-- Of three texts that are no colors the first is named. -/
example :
    ofData ⟨1, "Faulty", none, none, "white",
        ⟨none, some "#000000", some "#12345G", none, some "#1"⟩⟩ =
      .error (.block .statement .digit) := by
  rfl

end Theme

end BlockShading
