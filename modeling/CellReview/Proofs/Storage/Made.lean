import CellReview.Proofs.Storage.Walk

/-!
# What making directories and writing leave alone

A directory is made where nothing stands, so that every file that was there is still read.  A text
that is written is read back, and every other file is read as it was.

* `Disk.Grown` — a disk with more on it; `Disk.Grown.readBytes` — its older files are read;
* `Disk.grown_makeDirs` — **making directories adds to a disk**;
* `Disk.write_eq_ok` — what is written is put into a slot;
* `Disk.readText_of_write` — **a written text is read back**;
* `Disk.readBytes_of_write` — **another file is read as it was**.
-/

namespace CellReview.Disk

variable {d later : Disk} {path text : String} {place : Place} {bytes : ByteArray}

/-! ## More on a disk -/

/-- The directories and the files of a disk stand on a later one as well. -/
structure Grown (d later : Disk) : Prop where
  current : later.current = d.current
  dirs : ∀ place, d.root.IsDir place → later.root.IsDir place
  files : ∀ place bytes, d.at? place = some (.file bytes) → later.at? place = some (.file bytes)

namespace Grown

theorem refl (d : Disk) : Grown d d :=
  ⟨rfl, fun _ h => h, fun _ _ h => h⟩

theorem trans {between : Disk} (h : Grown d between) (h' : Grown between later) :
    Grown d later where
  current := h'.current.trans h.current
  dirs place hdir := h'.dirs place (h.dirs place hdir)
  files place bytes hfile := h'.files place bytes (h.files place bytes hfile)

theorem leads (h : Grown d later) (hleads : d.Leads path place) : later.Leads path place :=
  hleads.of_isDir h.current h.dirs

/-- An older file is still read. -/
theorem readBytes (h : Grown d later) (hread : d.readBytes path = .ok bytes) :
    later.readBytes path = .ok bytes := by
  obtain ⟨place, hleads, hfile⟩ := readBytes_eq_ok hread
  exact (h.leads hleads).readBytes (h.files place bytes hfile)

end Grown

/-! ## Making directories -/

/-- A directory that is made where nothing stands adds to a disk. -/
theorem grown_putDirectory (hslot : d.root.Slot place) (hfree : d.at? place = none) :
    Grown d (d.putDirectory place) := by
  rw [putDirectory, hfree]
  refine ⟨rfl, fun other hdir => hdir.put hslot _, fun other bytes hfile => ?_⟩
  have hne : other ≠ place := by
    rintro rfl
    exact absurd (hfree.symm.trans hfile) (by simp)
  exact Node.at?_put_of_ne hslot hfile hne _

theorem grown_makeDir (h : d.makeDir path = .ok later) : Grown d later := by
  obtain ⟨s, hwalk, h⟩ := bind_eq_ok_iff.1 h
  obtain ⟨hfrom, hends⟩ := from_walk hwalk
  split at h
  · exact absurd h (by simp)
  · rename_i hhere
    have hfree : d.at? s.place = none := hfrom.here_eq.symm.trans hhere
    have hslot : d.root.Slot s.place := by
      refine hends.resolve_left ?_
      rintro ⟨entries, hdir⟩
      exact absurd (hfree.symm.trans hdir) (by simp)
    obtain rfl := Except.ok.inj h
    exact grown_putDirectory hslot hfree

theorem grown_makeDirOrKeep (h : d.makeDirOrKeep path = .ok later) : Grown d later := by
  unfold makeDirOrKeep at h
  split at h
  · rename_i hmade
    obtain rfl := Except.ok.inj h
    exact grown_makeDir hmade
  · split at h
    · obtain rfl := Except.ok.inj h
      exact .refl d
    · exact absurd h (by simp)

theorem grown_makeChain {paths : List String} (h : d.makeChain paths = .ok later) :
    Grown d later := by
  induction paths generalizing later with
  | nil =>
    obtain rfl := Except.ok.inj h
    exact .refl d
  | cons path above ih =>
    unfold makeChain at h
    split at h
    · rename_i hmade
      obtain rfl := Except.ok.inj h
      exact grown_makeDir hmade
    split at h
    · obtain ⟨between, habove, h⟩ := bind_eq_ok_iff.1 h
      exact (ih habove).trans (grown_makeDirOrKeep h)
    split at h
    · obtain rfl := Except.ok.inj h
      exact .refl d
    · exact absurd h (by simp)

/-- **Making directories adds to a disk.** -/
theorem grown_makeDirs (h : d.makeDirs path = .ok later) : Grown d later :=
  grown_makeChain h

/-! ## Writing -/

/-- What is written is put into the slot that its path leads to. -/
theorem write_eq_ok (h : d.write path text = .ok later) :
    ∃ place, d.Leads path place ∧ d.root.Slot place ∧ later = d.putFile place text.toUTF8 := by
  obtain ⟨⟨place, old⟩, hwritable, hput⟩ := bind_eq_ok_iff.1 h
  obtain ⟨hleads, hslot⟩ := writable_eq_ok hwritable
  exact ⟨place, hleads, hslot, (Except.ok.inj hput).symm⟩

theorem fromUTF8?_toUTF8 (text : String) : String.fromUTF8? text.toUTF8 = some text := by
  unfold String.fromUTF8?
  split
  · rfl
  · exact absurd text.isValidUTF8 ‹_›

theorem readText_of_readBytes (h : d.readBytes path = .ok text.toUTF8) :
    d.readText path = .ok text := by
  simp only [readText, h, fromUTF8?_toUTF8, bind, Except.bind]

/-- **A written text is read back.** -/
theorem readText_of_write (h : d.write path text = .ok later) :
    later.readText path = .ok text := by
  obtain ⟨place, hleads, hslot, rfl⟩ := write_eq_ok h
  have hlater := (leads_putFile hslot text.toUTF8).2 hleads
  exact readText_of_readBytes (hlater.readBytes (Node.at?_put_self _))

/-- **Another file is read as it was**, and any other path to the written one leads to its new
text. -/
theorem readBytes_of_write (h : d.write path text = .ok later) {other : String}
    (hread : d.readBytes other = .ok bytes) :
    later.readBytes other = .ok bytes ∨ later.readBytes other = .ok text.toUTF8 := by
  obtain ⟨place, -, hslot, rfl⟩ := write_eq_ok h
  obtain ⟨stand, hstand, hfile⟩ := readBytes_eq_ok hread
  have hlater := (leads_putFile hslot text.toUTF8).2 hstand
  by_cases heq : stand = place
  · subst heq
    exact .inr (hlater.readBytes (Node.at?_put_self _))
  · exact .inl (hlater.readBytes (Node.at?_put_of_ne hslot hfile heq _))

end CellReview.Disk
