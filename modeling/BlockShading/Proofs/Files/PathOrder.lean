import BlockShading.Proofs.Files.Directories
import Mathlib.Data.List.Lex

/-!
# The order of paths

Paths are compared step by step: what is at or below an entry of a directory comes before what is at
or below another entry whose name is greater, also if the one name is the beginning of the other. A
name that is joined to a path adds one step, so that the steps of a path below a directory are those
of the directory and the names that lead down to it.
-/

namespace BlockShading

namespace Text

theorem eq_nil_of_splitOn {separator : Char} {cs : List Char} (h : splitOn separator cs = [[]]) :
    cs = [] :=
  (parts_iff.mpr h).joined.symm

end Text

namespace Path

variable {base p q : Path} {name x y : String} {names more rest : List String}

def descend (base : Path) (names : List String) : Path := names.foldl join base

theorem descend_cons (base : Path) (name : String) (names : List String) :
    base.descend (name :: names) = (base.join name).descend names := rfl

theorem join_ne_empty (hname : name ≠ "") : (base.join name).text ≠ "" := by
  unfold join
  split
  · exact hname
  split
  · simp [hname]
  · simp [hname]

theorem stepOf?_of_isName (hname : IsName name) : stepOf? name = some (.name name) := by
  rw [stepOf?, if_neg (by simp [hname.ne_empty, hname.ne_here]), if_neg hname.ne_up]

/-- A name that is joined to a path is one more step. -/
theorem steps_join (hname : IsName name) (hbase : base.text ≠ "") :
    (base.join name).steps = base.steps ++ [.name name] := by
  obtain ⟨habsolute, front, hfront, hjoined⟩ := segments_join hname.no_slash hbase
  have hsteps : base.segments.filterMap stepOf? = front.filterMap stepOf? := by
    rcases hfront with hfront | hfront
    · rw [hfront]
    · rw [hfront, List.filterMap_append]
      simp [stepOf?]
  have hhead : (front ++ [name]).head? = base.segments.head? := by
    cases front with
    | cons first others => rcases hfront with hfront | hfront <;> rw [hfront] <;> rfl
    | nil =>
      -- A path without segments of its own before the name would be empty.
      refine absurd ?_ hbase
      rcases hfront with hfront | hfront
      · exact absurd (List.map_eq_nil_iff.mp hfront) (Text.splitOn_ne_nil _ _)
      · have hsplit : Text.splitOn '/' base.text.toList = [[]] := by
          have hmap := congrArg (List.map String.toList) hfront
          simpa [segments] using hmap
        simpa using Text.eq_nil_of_splitOn hsplit
  simp only [steps, habsolute, hjoined, hhead, hsteps, List.filterMap_append, List.filterMap_cons,
    List.filterMap_nil, stepOf?_of_isName hname]
  split
  · rfl
  split
  · rfl
  · rfl

theorem steps_descend (hnames : ∀ name ∈ names, IsName name) (hbase : base.text ≠ "") :
    (base.descend names).steps = base.steps ++ names.map .name := by
  induction names generalizing base with
  | nil => simp [descend]
  | cons name names ih =>
    obtain ⟨hname, hrest⟩ := List.forall_mem_cons.mp hnames
    rw [descend_cons, ih hrest (join_ne_empty hname.ne_empty), steps_join hname hbase]
    simp

theorem descend_inj (hnames : ∀ name ∈ names, IsName name) (hmore : ∀ name ∈ more, IsName name)
    (hbase : base.text ≠ "") (h : base.descend names = base.descend more) : names = more := by
  have hsteps := congrArg steps h
  rw [steps_descend hnames hbase, steps_descend hmore hbase, List.append_cancel_left_eq] at hsteps
  exact List.map_injective_iff.mpr (fun _ _ heq => Step.name.inj heq) hsteps

def Step.rank : Step → Nat
  | .root => 0
  | .here => 1
  | .up => 2
  | .name _ => 3

/-- Steps are compared by their kind, and names by their bytes. -/
def Step.Before (s t : Step) : Prop :=
  s.rank < t.rank ∨
    ∃ x y, s = .name x ∧ t = .name y ∧ Text.bytes x.toList < Text.bytes y.toList

/-- Paths are compared step by step, and a path comes before those that go on from it. -/
def Before (p q : Path) : Prop := List.Lex Step.Before p.steps q.steps

theorem Step.not_before_self (s : Step) : ¬ Step.Before s s := by
  rintro (hrank | ⟨x, y, rfl, heq, hlt⟩)
  · exact Nat.lt_irrefl _ hrank
  · cases heq
    exact List.lt_irrefl _ hlt

theorem not_before_self (p : Path) : ¬ p.Before p := List.lex_irrefl Step.not_before_self p.steps

/-- A list of paths in order has none of them twice. -/
theorem nodup_of_pairwise_before {paths : List Path} (h : paths.Pairwise Before) :
    paths.Nodup := by
  refine List.Pairwise.imp ?_ h
  rintro p q hbefore rfl
  exact not_before_self p hbefore

/-- Below one directory the first names decide. -/
theorem before_of_lt {front : List Step} (hlt : Text.bytes x.toList < Text.bytes y.toList)
    (hp : p.steps = front ++ (x :: more).map .name)
    (hq : q.steps = front ++ (y :: rest).map .name) : p.Before q := by
  rw [Before, hp, hq]
  have hfirst : Step.Before (.name x) (.name y) := Or.inr ⟨x, y, rfl, rfl, hlt⟩
  exact List.Lex.append_left Step.Before (List.Lex.rel hfirst) front

end Path

end BlockShading
