import CellReview.Storage.Disk
import Mathlib.Data.List.Basic

/-!
# Files in a tree

A slot is a place in a directory where no directory stands.  A file that is put into a slot stands
there afterwards; every other file, and every directory, stands where it stood, and no directory is
new.

* `Node.child?_setChild`, `Node.child?_setChild_of_ne` — a directory with another child;
* `Node.IsDir`, `Node.Slot` — places of directories, and places for files;
* `Node.at?_put_self`, `Node.at?_put_of_ne`, `Node.at?_put_of_not_isDir`, `Node.IsDir.put`,
  `Node.isDir_put_iff` — **a file in a slot**.
-/

namespace CellReview.Node

/-! ## Children -/

variable (node : Node)

theorem child?_setChild (name : String) (child : Node) :
    (node.setChild name child).child? name = some child := by
  show (((node.entries.filter fun entry => entry.1 != name) ++ [(name, child)]).find?
    fun entry => entry.1 == name).map (·.2) = some child
  have hnone : (node.entries.filter fun entry => entry.1 != name).find?
      (fun entry => entry.1 == name) = none := by
    rw [List.find?_eq_none]
    intro entry hentry hname
    exact absurd (beq_iff_eq.1 hname) (bne_iff_ne.1 (List.mem_filter.1 hentry).2)
  rw [List.find?_append, hnone, Option.none_or]
  simp

theorem child?_setChild_of_ne {name other : String} (h : other ≠ name) (child : Node) :
    (node.setChild name child).child? other = node.child? other := by
  show (((node.entries.filter fun entry => entry.1 != name) ++ [(name, child)]).find?
    fun entry => entry.1 == other).map (·.2) = node.child? other
  have hfilter : (fun entry : String × Node =>
      decide ((entry.1 != name) = true ∧ (entry.1 == other) = true)) =
      fun entry => entry.1 == other := by
    funext entry
    by_cases hentry : entry.1 = other
    · simp [hentry, h]
    · simp [hentry]
  rw [List.find?_append, List.find?_filter, hfilter, List.find?_cons_of_neg (by simpa using h.symm),
    List.find?_nil, Option.or_none]
  rfl

/-! ## Places -/

variable {node}

theorem at?_cons (name : String) (place : Place) :
    node.at? (name :: place) = (node.child? name).bind fun child => child.at? place := rfl

theorem at?_append (place rest : Place) :
    node.at? (place ++ rest) = (node.at? place).bind fun below => below.at? rest := by
  induction place generalizing node with
  | nil => rfl
  | cons name place ih =>
    rw [List.cons_append, at?_cons, at?_cons]
    cases node.child? name with
    | none => rfl
    | some child => exact ih

/-- Whether a directory stands at a place. -/
def IsDir (node : Node) (place : Place) : Prop :=
  ∃ entries, node.at? place = some (.directory entries)

theorem isDir_cons {child : Node} {name : String} {place : Place}
    (h : node.child? name = some child) : node.IsDir (name :: place) ↔ child.IsDir place := by
  rw [IsDir, at?_cons, h]
  rfl

theorem IsDir.exists_child {name : String} {place : Place} (h : node.IsDir (name :: place)) :
    ∃ child, node.child? name = some child ∧ child.IsDir place := by
  obtain ⟨entries, hentries⟩ := h
  obtain ⟨child, hchild, hplace⟩ := Option.bind_eq_some_iff.1 hentries
  exact ⟨child, hchild, entries, hplace⟩

/-- A node that holds something is a directory. -/
theorem IsDir.of_child? {name : String} {child : Node} (h : node.child? name = some child) :
    node.IsDir [] := by
  cases node with
  | file bytes => exact absurd h (by simp [child?, entries])
  | directory entries => exact ⟨entries, rfl⟩

/-- Whether a place is a name in a directory, and no directory stands there. -/
inductive Slot : Node → Place → Prop where
  | here {entries : List (String × Node)} {name : String}
      (hfree : ∀ inner, (directory entries).child? name ≠ some (.directory inner)) :
      Slot (.directory entries) [name]
  | inside {node child : Node} {name : String} {place : Place}
      (hchild : node.child? name = some child) (h : Slot child place) : Slot node (name :: place)

theorem slot_of_isDir {place : Place} {name : String} (hdir : node.IsDir place)
    (hfree : ¬ node.IsDir (place ++ [name])) : node.Slot (place ++ [name]) := by
  induction place generalizing node with
  | nil =>
    obtain ⟨entries, hentries⟩ := hdir
    obtain rfl := Option.some.inj hentries
    refine .here fun inner hinner => hfree ⟨inner, ?_⟩
    rw [List.nil_append, at?_cons, hinner]
    rfl
  | cons first place ih =>
    obtain ⟨child, hchild, hdir⟩ := hdir.exists_child
    exact .inside hchild (ih hdir fun h => hfree ((isDir_cons hchild).2 h))

/-! ## A file in a slot -/

variable {place : Place}

theorem at?_put_self (new : Node) : (node.put place new).at? place = some new := by
  induction place generalizing node with
  | nil => rfl
  | cons name place ih =>
    rw [put, at?_cons, child?_setChild, Option.bind_some]
    exact ih

/-- A file elsewhere stays. -/
theorem at?_put_of_ne (h : node.Slot place) {other : Place} {bytes : ByteArray}
    (hother : node.at? other = some (.file bytes)) (hne : other ≠ place) (new : Node) :
    (node.put place new).at? other = some (.file bytes) := by
  induction h generalizing other with
  | @here entries name hfree =>
    cases other with
    | nil => exact absurd (Option.some.inj hother) (by simp)
    | cons first rest =>
      have hfirst : first ≠ name := by
        rintro rfl
        -- below a name that holds no directory there is nothing else
        cases rest with
        | nil => exact hne rfl
        | cons second rest =>
          rw [at?_cons] at hother
          obtain ⟨child, hchild, hrest⟩ := Option.bind_eq_some_iff.1 hother
          obtain ⟨inner, hinner, -⟩ := Option.bind_eq_some_iff.1 hrest
          obtain ⟨entries', hdir⟩ := IsDir.of_child? hinner
          exact hfree entries' (hchild.trans hdir)
      rw [put, at?_cons, child?_setChild_of_ne _ hfirst, ← at?_cons, hother]
  | @inside node child name place hchild h ih =>
    cases other with
    | nil =>
      obtain ⟨entries, hdir⟩ := IsDir.of_child? hchild
      exact absurd (hother.symm.trans hdir) (by simp)
    | cons first rest =>
      rw [put, at?_cons]
      by_cases hfirst : first = name
      · subst hfirst
        rw [at?_cons, hchild, Option.bind_some] at hother
        rw [child?_setChild, hchild, Option.bind_some]
        exact ih hother fun heq => hne (heq ▸ rfl)
      · rw [child?_setChild_of_ne _ hfirst, ← at?_cons, hother]

/-- Beside a slot that takes a file everything but the directories stays as it was. -/
theorem at?_put_of_not_isDir (h : node.Slot place) {other : Place} (hother : ¬ node.IsDir other)
    (hne : other ≠ place) (bytes : ByteArray) :
    (node.put place (.file bytes)).at? other = node.at? other := by
  induction h generalizing other with
  | @here entries name hfree =>
    cases other with
    | nil => exact absurd ⟨entries, rfl⟩ hother
    | cons first rest =>
      rw [put, at?_cons, at?_cons]
      by_cases hfirst : first = name
      · subst hfirst
        cases rest with
        | nil => exact absurd rfl hne
        | cons second rest =>
          -- below a file there is nothing, and nothing was below what stood there before
          rw [child?_setChild]
          cases hchild : (directory entries).child? first with
          | none => rfl
          | some child =>
            cases child with
            | file old => rfl
            | directory inner => exact absurd hchild (hfree inner)
      · rw [child?_setChild_of_ne _ hfirst]
  | @inside node child name place hchild h ih =>
    cases other with
    | nil => exact absurd (IsDir.of_child? hchild) hother
    | cons first rest =>
      rw [put, at?_cons, at?_cons]
      by_cases hfirst : first = name
      · subst hfirst
        rw [child?_setChild, hchild]
        exact ih (fun hdir => hother ((isDir_cons hchild).2 hdir)) fun heq => hne (heq ▸ rfl)
      · rw [child?_setChild_of_ne _ hfirst]

/-- Whatever is put into a slot, a directory stays. -/
theorem IsDir.put (h : node.Slot place) (new : Node) {other : Place} (hdir : node.IsDir other) :
    (node.put place new).IsDir other := by
  induction h generalizing other with
  | @here entries name hfree =>
    cases other with
    | nil => exact ⟨_, rfl⟩
    | cons first rest =>
      obtain ⟨inner, hinner⟩ := hdir
      rw [Node.put, IsDir, at?_cons]
      by_cases hfirst : first = name
      · subst hfirst
        obtain ⟨child, hchild, hrest⟩ := Option.bind_eq_some_iff.1 hinner
        cases rest with
        | nil =>
          obtain rfl := Option.some.inj hrest
          exact absurd hchild (hfree inner)
        | cons second rest =>
          obtain ⟨below, hbelow, -⟩ := Option.bind_eq_some_iff.1 hrest
          obtain ⟨entries', hdir⟩ := IsDir.of_child? hbelow
          exact absurd (hchild.trans hdir) (hfree entries')
      · rw [child?_setChild_of_ne _ hfirst]
        exact ⟨inner, hinner⟩
  | @inside node child name place hchild h ih =>
    cases other with
    | nil => exact ⟨_, rfl⟩
    | cons first rest =>
      by_cases hfirst : first = name
      · subst hfirst
        rw [Node.put, isDir_cons (child?_setChild _ _ _), hchild]
        exact ih ((isDir_cons hchild).1 hdir)
      · rw [Node.put, IsDir, at?_cons, child?_setChild_of_ne _ hfirst]
        exact hdir

/-- A file in a slot neither makes a directory nor takes one away. -/
theorem isDir_put_iff (h : node.Slot place) (bytes : ByteArray) (other : Place) :
    (node.put place (.file bytes)).IsDir other ↔ node.IsDir other := by
  refine ⟨fun hdir => ?_, fun hdir => hdir.put h _⟩
  induction h generalizing other with
  | @here entries name hfree =>
    cases other with
    | nil => exact ⟨_, rfl⟩
    | cons first rest =>
      rw [put, IsDir, at?_cons] at hdir
      by_cases hfirst : first = name
      · subst hfirst
        rw [child?_setChild, Option.bind_some] at hdir
        obtain ⟨inner, hinner⟩ := hdir
        cases rest with
        | nil => exact absurd (Option.some.inj hinner) (by simp [put])
        | cons second rest =>
          rw [put, at?_cons] at hinner
          exact absurd hinner (by simp [child?, Node.entries])
      · rwa [child?_setChild_of_ne _ hfirst] at hdir
  | @inside node child name place hchild h ih =>
    cases other with
    | nil => exact IsDir.of_child? hchild
    | cons first rest =>
      by_cases hfirst : first = name
      · subst hfirst
        rw [put, isDir_cons (child?_setChild _ _ _), hchild] at hdir
        exact (isDir_cons hchild).2 (ih rest hdir)
      · rwa [put, IsDir, at?_cons, child?_setChild_of_ne _ hfirst] at hdir

end CellReview.Node
