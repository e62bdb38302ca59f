import CellReview.Proofs.Attempt
import CellReview.Proofs.Storage.Tree

/-!
# Where paths lead after a file was written

A path leads to a place by the directories on its way alone.  A file that is written takes a slot,
so that every path leads where it led before: the file is read back, and another file stays as it
was.

* `Spot.From` — the spots that names lead to from the root, and what stands there;
* `Disk.Leads` — a path leads to a place; `Disk.leads_iff` — it depends on directories only;
* `Disk.readBytes_eq_ok`, `Disk.writable_eq_ok` — files that are read and that can be written;
* `Disk.Apart` — a file, and a path that leads elsewhere;
* `Disk.Apart.write`, `Disk.Apart.writable_write`, `Disk.Apart.append` — **writing the file, and
  adding to the other**.
-/

namespace CellReview

/-! ## Spots -/

namespace Spot

variable {root root' : Node} {s s' t : Spot}

/-- The spots that names lead to from the root. -/
inductive From (root : Node) : Spot → Prop where
  | root : From root ⟨[], [], some root⟩
  | child {s : Spot} (h : From root s) (name : String) : From root (s.child name)

theorem names_child (s : Spot) (name : String) : (s.child name).names = name :: s.names := by
  rw [child]
  split <;> rfl

theorem place_child (s : Spot) (name : String) : (s.child name).place = s.place ++ [name] := by
  rw [place, names_child, List.reverse_cons]
  rfl

/-- What stands at a spot is what the tree has at its place. -/
theorem From.here_eq (h : From root s) : s.here = root.at? s.place := by
  induction h with
  | root => rfl
  | @child s h name ih =>
    rw [place_child, Node.at?_append, ← ih, Spot.child]
    split
    · rename_i node hnode
      rw [hnode, Option.bind_some]
      show node.child? name = (node.child? name).bind fun child => child.at? []
      cases node.child? name <;> rfl
    · rename_i hnone
      rw [hnone]
      rfl

theorem From.isDir_iff (h : From root s) :
    root.IsDir s.place ↔ ∃ entries, s.here = some (.directory entries) := by
  rw [h.here_eq]
  rfl

/-- Above something there is a directory. -/
theorem From.parent (h : From root s) (hdir : root.IsDir s.place) :
    From root s.parent ∧ s.parent.names = s.names.tail ∧ root.IsDir s.parent.place := by
  cases h with
  | root => exact ⟨.root, rfl, hdir⟩
  | @child s h name =>
    obtain ⟨entries, hhere⟩ := (h.child name).isDir_iff.1 hdir
    cases hnode : s.here with
    | none =>
      rw [Spot.child, hnode] at hhere
      exact absurd hhere (by simp)
    | some node =>
      have hparent : (s.child name).parent = s := by
        rw [Spot.child, hnode]
        simp only [Spot.parent, List.tail_cons]
        rw [← hnode]
      have hchild : node.child? name = some (.directory entries) := by
        rw [Spot.child, hnode] at hhere
        exact hhere
      obtain ⟨inner, hinner⟩ := Node.IsDir.of_child? hchild
      rw [hparent, names_child, List.tail_cons]
      exact ⟨h, rfl, h.isDir_iff.2 ⟨inner, hnode.trans hinner⟩⟩

/-- A step is taken from a directory: to itself, upwards, or to one of its names. -/
theorem step_eq_ok {name : String} (h : s.step name = .ok t) :
    (∃ entries, s.here = some (.directory entries)) ∧
      (name = "." ∧ t = s ∨ name ≠ "." ∧ name = ".." ∧ t = s.parent ∨
        name ≠ "." ∧ name ≠ ".." ∧ t = s.child name ∧
          ¬ name.utf8ByteSize > Path.longestName) := by
  unfold step at h
  split at h
  · exact absurd h (by simp)
  · exact absurd h (by simp)
  · rename_i entries hhere
    refine ⟨⟨entries, hhere⟩, ?_⟩
    split at h
    · exact .inl ⟨‹_›, (Except.ok.inj h).symm⟩
    split at h
    · exact .inr (.inl ⟨‹_›, ‹_›, (Except.ok.inj h).symm⟩)
    split at h
    · exact absurd h (by simp)
    · exact .inr (.inr ⟨‹_›, ‹_›, (Except.ok.inj h).symm, ‹_›⟩)

/-- A step leads to a directory or to a slot. -/
theorem From.step (h : From root s) {name : String} (hstep : s.step name = .ok t) :
    From root t ∧ (root.IsDir t.place ∨ root.Slot t.place) := by
  obtain ⟨hhere, hcases⟩ := step_eq_ok hstep
  have hdir := h.isDir_iff.2 hhere
  rcases hcases with ⟨-, rfl⟩ | ⟨-, -, rfl⟩ | ⟨-, -, rfl, -⟩
  · exact ⟨h, .inl hdir⟩
  · obtain ⟨hparent, -, hup⟩ := h.parent hdir
    exact ⟨hparent, .inl hup⟩
  · refine ⟨h.child name, ?_⟩
    rw [place_child]
    exact (em _).imp_right (Node.slot_of_isDir hdir)

/-- The same step can be taken where every directory still is one. -/
theorem From.step_of_isDir (h : From root s) (h' : From root' s') (hnames : s'.names = s.names)
    (hdirs : ∀ place, root.IsDir place → root'.IsDir place) {name : String}
    (hstep : s.step name = .ok t) :
    ∃ t', s'.step name = .ok t' ∧ From root' t' ∧ t'.names = t.names := by
  obtain ⟨hhere, hcases⟩ := step_eq_ok hstep
  have hplace : s'.place = s.place := congrArg List.reverse hnames
  have hdir := h.isDir_iff.2 hhere
  have hdir' : root'.IsDir s'.place := hdirs _ (hplace ▸ hdir)
  obtain ⟨entries, hhere'⟩ := h'.isDir_iff.1 hdir'
  rcases hcases with ⟨rfl, rfl⟩ | ⟨hdot, rfl, rfl⟩ | ⟨hdot, hup, rfl, hshort⟩
  · exact ⟨s', by simp [Spot.step, hhere'], h', hnames⟩
  · refine ⟨s'.parent, by simp [Spot.step, hhere'], (h'.parent hdir').1, ?_⟩
    rw [(h'.parent hdir').2.1, (h.parent hdir).2.1, hnames]
  · refine ⟨s'.child name, by simp [Spot.step, hhere', hdot, hup, hshort], h'.child name, ?_⟩
    rw [names_child, names_child, hnames]

/-- A walk ends at a directory or in a slot if it begins so. -/
theorem From.walk (h : From root s) (hs : root.IsDir s.place ∨ root.Slot s.place)
    {names : List String} (hwalk : names.foldlM Spot.step s = .ok t) :
    From root t ∧ (root.IsDir t.place ∨ root.Slot t.place) := by
  induction names generalizing s with
  | nil =>
    cases hwalk
    exact ⟨h, hs⟩
  | cons name names ih =>
    rw [List.foldlM_cons] at hwalk
    obtain ⟨u, hstep, hwalk⟩ := bind_eq_ok_iff.1 hwalk
    exact ih (h.step hstep).1 (h.step hstep).2 hwalk

theorem From.walk_cons (h : From root s) {name : String} {names : List String}
    (hwalk : (name :: names).foldlM Spot.step s = .ok t) :
    From root t ∧ (root.IsDir t.place ∨ root.Slot t.place) := by
  rw [List.foldlM_cons] at hwalk
  obtain ⟨u, hstep, hwalk⟩ := bind_eq_ok_iff.1 hwalk
  exact (h.step hstep).1.walk (h.step hstep).2 hwalk

theorem From.walk_of_isDir (h : From root s) (h' : From root' s') (hnames : s'.names = s.names)
    (hdirs : ∀ place, root.IsDir place → root'.IsDir place) {names : List String}
    (hwalk : names.foldlM Spot.step s = .ok t) :
    ∃ t', names.foldlM Spot.step s' = .ok t' ∧ From root' t' ∧ t'.names = t.names := by
  induction names generalizing s s' with
  | nil =>
    cases hwalk
    exact ⟨s', rfl, h', hnames⟩
  | cons name names ih =>
    rw [List.foldlM_cons] at hwalk ⊢
    obtain ⟨u, hstep, hwalk⟩ := bind_eq_ok_iff.1 hwalk
    obtain ⟨u', hstep', hu', hsame⟩ := h.step_of_isDir h' hnames hdirs hstep
    rw [hstep']
    exact ih (h.step hstep).1 hu' hsame hwalk

theorem From.childs (h : From root s) (names : List String) :
    From root (names.foldl Spot.child s) := by
  induction names generalizing s with
  | nil => exact h
  | cons name names ih => exact ih (h.child name)

theorem names_childs (hnames : s'.names = s.names) (names : List String) :
    (names.foldl Spot.child s').names = (names.foldl Spot.child s).names := by
  induction names generalizing s s' with
  | nil => exact hnames
  | cons name names ih => exact ih (by rw [names_child, names_child, hnames])

end Spot

/-! ## Paths -/

namespace Disk

variable {d d' : Disk} {path : String} {place : Place} {bytes : ByteArray}

/-- The spot where the walk along a path begins. -/
def startOf (d : Disk) (path : String) : Spot :=
  if Path.isAbsolute path then d.rootSpot else d.current.foldl Spot.child d.rootSpot

theorem from_startOf (d : Disk) (path : String) : Spot.From d.root (d.startOf path) := by
  rw [startOf]
  split
  · exact .root
  · exact Spot.From.root.childs d.current

theorem steps_ne_nil (path : String) : Path.steps path ≠ [] := by
  rw [Path.steps, Ne, List.map_eq_nil_iff, Chars.splitWhere]
  cases path.toList with
  | nil => exact List.cons_ne_nil _ _
  | cons c cs =>
    rw [List.foldr_cons]
    split
    · exact List.cons_ne_nil _ _
    · rw [Chars.consFirst.eq_def]
      split <;> exact List.cons_ne_nil _ _

theorem walk_eq_ok {s : Spot} (h : d.walk path = .ok s) :
    ¬ path.isEmpty ∧ ¬ path.utf8ByteSize > Path.longest ∧
      (Path.steps path).foldlM Spot.step (d.startOf path) = .ok s := by
  unfold walk at h
  split at h
  · exact absurd h (by simp)
  split at h
  · exact absurd h (by simp)
  · exact ⟨‹_›, ‹_›, h⟩

theorem from_walk {s : Spot} (h : d.walk path = .ok s) :
    Spot.From d.root s ∧ (d.root.IsDir s.place ∨ d.root.Slot s.place) := by
  obtain ⟨-, -, hwalk⟩ := walk_eq_ok h
  obtain ⟨name, names, hsteps⟩ := List.exists_cons_of_ne_nil (steps_ne_nil path)
  rw [hsteps] at hwalk
  exact (d.from_startOf path).walk_cons hwalk

/-- A path leads to a place. -/
def Leads (d : Disk) (path : String) (place : Place) : Prop :=
  ∃ s, d.walk path = .ok s ∧ s.place = place

theorem Leads.unique {other : Place} (h : d.Leads path place) (h' : d.Leads path other) :
    place = other := by
  obtain ⟨s, hs, rfl⟩ := h
  obtain ⟨t, ht, rfl⟩ := h'
  rw [Except.ok.inj (hs.symm.trans ht)]

theorem Leads.of_isDir (h : d.Leads path place) (hcurrent : d'.current = d.current)
    (hdirs : ∀ place, d.root.IsDir place → d'.root.IsDir place) : d'.Leads path place := by
  obtain ⟨s, hwalk, rfl⟩ := h
  obtain ⟨hsome, hshort, hsteps⟩ := walk_eq_ok hwalk
  have hnames : (d'.startOf path).names = (d.startOf path).names := by
    rw [startOf, startOf, hcurrent]
    split
    · rfl
    · have hroots : d'.rootSpot.names = d.rootSpot.names := rfl
      exact Spot.names_childs hroots d.current
  obtain ⟨s', hsteps', -, hsame⟩ :=
    (d.from_startOf path).walk_of_isDir (d'.from_startOf path) hnames hdirs hsteps
  refine ⟨s', ?_, congrArg List.reverse hsame⟩
  rw [walk, if_neg hsome, if_neg hshort]
  exact hsteps'

/-- Paths whose walks end at different places lead to different places. -/
theorem not_leads_of_walk_ne {other : String}
    (h : (d.walk path).toOption.map Spot.place ≠ (d.walk other).toOption.map Spot.place) :
    ∀ place, d.Leads path place → ¬ d.Leads other place := by
  rintro place ⟨s, hs, rfl⟩ ⟨t, ht, heq⟩
  rw [hs, ht] at h
  exact h (congrArg some heq.symm)

/-- Where a path leads depends on the directories only. -/
theorem leads_iff (hcurrent : d'.current = d.current)
    (hdirs : ∀ place, d'.root.IsDir place ↔ d.root.IsDir place) :
    d'.Leads path place ↔ d.Leads path place :=
  ⟨fun h => h.of_isDir hcurrent.symm fun place => (hdirs place).1,
    fun h => h.of_isDir hcurrent fun place => (hdirs place).2⟩

theorem Leads.exists_walk (h : d.Leads path place) :
    ∃ s, d.walk path = .ok s ∧ s.place = place ∧ s.here = d.at? place := by
  obtain ⟨s, hwalk, rfl⟩ := h
  exact ⟨s, hwalk, rfl, (from_walk hwalk).1.here_eq⟩

/-- The file at a place that a path leads to is read. -/
theorem Leads.readBytes (h : d.Leads path place) (hfile : d.at? place = some (.file bytes)) :
    d.readBytes path = .ok bytes := by
  obtain ⟨s, hwalk, -, hhere⟩ := h.exists_walk
  simp [Disk.readBytes, find, hwalk, hhere, hfile, bind, Except.bind]

/-- A file that is read stands at a place that its path leads to. -/
theorem readBytes_eq_ok (h : d.readBytes path = .ok bytes) :
    ∃ place, d.Leads path place ∧ d.at? place = some (.file bytes) := by
  obtain ⟨node, hfind, hnode⟩ := bind_eq_ok_iff.1 h
  obtain ⟨s, hwalk, hhere⟩ := bind_eq_ok_iff.1 hfind
  refine ⟨s.place, ⟨s, hwalk, rfl⟩, ?_⟩
  rw [at?, ← (from_walk hwalk).1.here_eq]
  split at hhere
  · rename_i hsome
    obtain rfl := Except.ok.inj hhere
    split at hnode
    · exact Except.ok.inj hnode ▸ hsome
    · exact absurd hnode (by simp)
  · exact absurd hhere (by simp)

/-- A file that can be written has a slot. -/
theorem writable_eq_ok {old : Option ByteArray} (h : d.writable path = .ok (place, old)) :
    d.Leads path place ∧ d.root.Slot place := by
  obtain ⟨s, hwalk, h⟩ := bind_eq_ok_iff.1 h
  obtain ⟨hfrom, hslot⟩ := from_walk hwalk
  have hfree : ¬ d.root.IsDir s.place := by
    rintro ⟨entries, hdir⟩
    rw [← hfrom.here_eq] at hdir
    simp [hdir] at h
  have hplace : s.place = place := by
    split at h
    · exact absurd h (by simp)
    · exact congrArg Prod.fst (Except.ok.inj h)
    · exact congrArg Prod.fst (Except.ok.inj h)
  rw [← hplace]
  exact ⟨⟨s, hwalk, rfl⟩, hslot.resolve_left hfree⟩

/-- What stands where a file can be written. -/
theorem at?_of_writable {old : Option ByteArray} (h : d.writable path = .ok (place, old)) :
    d.at? place = old.map .file := by
  obtain ⟨s, hwalk, h⟩ := bind_eq_ok_iff.1 h
  have hhere : s.here = d.at? s.place := (from_walk hwalk).1.here_eq
  split at h
  · exact absurd h (by simp)
  all_goals
    obtain ⟨rfl, rfl⟩ := Prod.mk.inj (Except.ok.inj h)
    exact hhere.symm.trans ‹_›

/-- A path that leads to a file or to nothing can be written. -/
theorem Leads.writable_of_at? (h : d.Leads path place) {old : Option ByteArray}
    (hold : d.at? place = old.map .file) : d.writable path = .ok (place, old) := by
  obtain ⟨s, hwalk, hplace, hhere⟩ := h.exists_walk
  cases old <;> simp [Disk.writable, hwalk, hhere, hold, hplace, bind, Except.bind]

/-- A file that stands where a path leads can be written. -/
theorem Leads.writable (h : d.Leads path place) (hfile : d.at? place = some (.file bytes)) :
    d.writable path = .ok (place, some bytes) :=
  h.writable_of_at? hfile

/-- A file put into a slot leaves the paths where they are. -/
theorem leads_putFile {slot : Place} (hslot : d.root.Slot slot) (new : ByteArray) :
    (d.putFile slot new).Leads path place ↔ d.Leads path place :=
  leads_iff rfl fun place => Node.isDir_put_iff hslot new place

/-! ## Two files -/

/-- A path leads to a file with the given bytes, and another path does not lead there. -/
structure Apart (d : Disk) (path other : String) (place : Place) (bytes : ByteArray) : Prop where
  leads : d.Leads path place
  file : d.at? place = some (.file bytes)
  apart : ¬ d.Leads other place

namespace Apart

variable {other : String} (h : d.Apart path other place bytes)
include h

theorem readBytes : d.readBytes path = .ok bytes :=
  h.leads.readBytes h.file

theorem putFile {slot : Place} (hslot : d.root.Slot slot) {new old : ByteArray}
    (hfile : (d.putFile slot new).at? place = some (.file old)) :
    (d.putFile slot new).Apart path other place old := by
  exact ⟨(leads_putFile hslot new).2 h.leads, hfile,
    fun hother => h.apart ((leads_putFile hslot new).1 hother)⟩

/-- The file is written. -/
theorem write (text : String) :
    ∃ later, d.write path text = .ok later ∧ later.Apart path other place text.toUTF8 := by
  have hwritable := h.leads.writable h.file
  refine ⟨d.putFile place text.toUTF8, by simp [Disk.write, hwritable, bind, Except.bind], ?_⟩
  exact h.putFile (writable_eq_ok hwritable).2 (Node.at?_put_self _)

/-- While the file is written, the other one stays as it was. -/
theorem writable_write {text : String} {later : Disk} (hlater : d.write path text = .ok later)
    {found : Place × Option ByteArray} (hother : d.writable other = .ok found) :
    later.writable other = .ok found := by
  obtain ⟨log, old⟩ := found
  have hold := at?_of_writable hother
  obtain ⟨hlog, -⟩ := writable_eq_ok hother
  have hwritable := h.leads.writable h.file
  have hslot := (writable_eq_ok hwritable).2
  obtain rfl : later = d.putFile place text.toUTF8 := by
    simpa [Disk.write, hwritable, bind, Except.bind] using hlater.symm
  have hne : log ≠ place := fun heq => h.apart (heq ▸ hlog)
  have hfree : ¬ d.root.IsDir log := by
    rintro ⟨entries, hdir⟩
    cases old <;> simp [Disk.at?, hdir] at hold
  refine ((leads_putFile hslot _).2 hlog).writable_of_at? ?_
  exact (Node.at?_put_of_not_isDir hslot hfree hne _).trans hold

/-- A text is added to the other file, if that can be written. -/
theorem append {text : String} {later : Disk} (hlater : d.append other text = .ok later) :
    later.Apart path other place bytes := by
  obtain ⟨⟨slot, old⟩, hwritable, hput⟩ := bind_eq_ok_iff.1 hlater
  obtain ⟨hleads, hslot⟩ := writable_eq_ok hwritable
  have hne : place ≠ slot := fun heq => h.apart (heq ▸ hleads)
  obtain rfl := Except.ok.inj hput
  exact h.putFile hslot (Node.at?_put_of_ne hslot h.file hne _)

end Apart

end Disk

end CellReview
