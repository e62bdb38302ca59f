import CellReview.Proofs.Diff.Script

/-!
# Tidying keeps a script sound

A script is tidied by rewriting two neighbouring runs at a time.  Each rewriting keeps it
sound, wherever it is done, and so does everything that is made of them.

* `Sound.skip`, `Sound.absorb`, `Sound.swap`, `Sound.up`, `Sound.down` — the rewritings;
* `slideUp_sound`, `slideDown_sound` — a run that slides past its neighbours;
* `compact_sound` — every deletion and then every insertion;
* `joinRuns_isAlignment` — **the equal runs of the joined script are an alignment**.
-/

namespace CellReview.Diff

variable {α : Type} [BEq α] {a b : Array α} {i j n p q s : Nat}
  {e next previous here : Edit} {before after rest : List Edit}

/-! ## Rewriting neighbours -/

/-- A deletion has no new elements that could be equal to those before it. -/
theorem upCount_delete (a b : Array α) (previous : Edit) (old count new : Nat) :
    upCount a b previous (.delete old count new) = 0 := by
  rw [upCount, show min _ (Edit.delete old count new).newCount = 0 from Nat.min_zero _, endCount]

theorem downCount_delete (a b : Array α) (next : Edit) (old count new : Nat) :
    downCount a b (.delete old count new) next = 0 := by
  rw [downCount, show min _ (Edit.delete old count new).newCount = 0 from Nat.min_zero _,
    startCount_zero]

namespace Sound

/-- A run that covers nothing can be left out. -/
theorem skip (h : Sound a b i j (e :: rest)) (hold : e.oldCount = 0) (hnew : e.newCount = 0) :
    Sound a b i j rest := by
  obtain ⟨-, hrest⟩ := h
  rwa [hold, hnew] at hrest

theorem skip_of_isEmpty (h : Sound a b i j (e :: rest)) (hempty : e.isEmpty = true) :
    Sound a b i j rest := by
  rw [Edit.isEmpty, Bool.and_eq_true, beq_iff_eq, beq_iff_eq] at hempty
  exact h.skip hempty.1 hempty.2

/-- Neighbours of one kind can be joined. -/
theorem absorb (h : Sound a b i j (e :: next :: rest)) (hkind : e.kind = next.kind) :
    Sound a b i j (e.absorb next :: rest) := by
  obtain ⟨he, hnext, hrest⟩ := h
  refine ⟨he.absorb hnext hkind, ?_⟩
  rwa [Nat.add_assoc, Nat.add_assoc] at hrest

/-- A deletion and an insertion next to each other can trade places. -/
theorem swap (h : Sound a b i j (e :: next :: rest)) (he : e.kind ≠ .equal)
    (hnext : next.kind ≠ .equal) (hkind : e.kind ≠ next.kind) :
    Sound a b i j (next :: e :: rest) := by
  obtain ⟨hstands, hstands', hrest⟩ := h
  cases hstands with
  | equal => exact absurd rfl he
  | delete old count new =>
    cases hstands' with
    | equal => exact absurd rfl hnext
    | delete => exact absurd rfl hkind
    | insert old' count' => exact ⟨.insert old' count', .delete old count new, hrest⟩
  | insert old count =>
    cases hstands' with
    | equal => exact absurd rfl hnext
    | delete old' count' new => exact ⟨.delete old' count' new, .insert old count, hrest⟩
    | insert => exact absurd rfl hkind

/-- An equal run can grow to the left by one that ends where it begins. -/
theorem growLeft (h : Sound a b i j (.equal p q s :: next :: rest)) (hnext : next.kind = .equal) :
    Sound a b i j (next.growLeft s :: rest) := by
  have habsorbed := h.absorb hnext.symm
  obtain ⟨rfl, rfl, -, hstands, -⟩ := sound_equal_cons.1 h
  obtain ⟨n, rfl, -⟩ := hstands.eq_equal hnext
  have hgrown : (Edit.equal (p + s) (q + s) n).growLeft s =
      (Edit.equal p q s).absorb (.equal (p + s) (q + s) n) := by
    simp [Edit.growLeft, Edit.absorb, Edit.equal, Nat.add_comm]
  rw [hgrown]
  exact habsorbed

/-- An insertion that ends in the elements in front of it can stand in front of these. -/
theorem up (h : Sound a b i j (previous :: here :: after)) (hprevious : previous.kind = .equal)
    (hhere : here.kind ≠ .equal) (hs : upCount a b previous here = s) (hpos : s ≠ 0) :
    s ≤ previous.oldCount ∧ Sound a b i j
      ({ previous with oldCount := previous.oldCount - s, newCount := previous.newCount - s } ::
        { here with old := here.old - s, new := here.new - s } ::
        .equal (previous.old + previous.oldCount - s) (here.new + here.newCount - s) s ::
          after) := by
  obtain ⟨hstands, hstands', hafter⟩ := h
  obtain ⟨n, rfl, hstart⟩ := hstands.eq_equal hprevious
  cases hstands' with
  | equal => exact absurd rfl hhere
  | delete old count new => exact absurd (hs.symm.trans (upCount_delete ..)) hpos
  | insert old count =>
    obtain ⟨hcount, -, -, hagree⟩ := endCount_agree a b (i + n) (j + n + count) (min n count)
    change endCount a b (i + n) (j + n + count) (min n count) = s at hs
    rw [hs] at hcount hagree
    have hn : s ≤ n := Nat.le_trans hcount (Nat.min_le_left n count)
    have hp : i + (n - s) = i + n - s := (Nat.add_sub_assoc hn i).symm
    have hq : j + (n - s) = j + n - s := (Nat.add_sub_assoc hn j).symm
    have hcount : j + n - s + count = j + n + count - s := by omega
    change s ≤ n ∧ Sound a b i j (.equal i j (n - s) :: .insert (old - s) (j + n - s) count ::
      .equal (i + n - s) (j + n + count - s) s :: after)
    simp only [sound_equal_cons, sound_insert_cons, hp, hq, hcount, true_and]
    refine ⟨hn, hstart.mono (Nat.sub_le n s), hagree, ?_⟩
    rw [Nat.sub_add_cancel (by omega), Nat.sub_add_cancel (by omega)]
    exact hafter

/-- An insertion that begins with the elements behind it can stand behind these. -/
theorem down (h : Sound a b i j (here :: next :: after)) (hnext : next.kind = .equal)
    (hhere : here.kind ≠ .equal) (hs : downCount a b here next = s) (hpos : s ≠ 0) :
    s ≤ next.oldCount ∧ Sound a b i j
      (.equal next.old here.new s :: { here with old := here.old + s, new := here.new + s } ::
        { next with
          old := next.old + s, oldCount := next.oldCount - s
          new := next.new + s, newCount := next.newCount - s } :: after) := by
  obtain ⟨hstands, hstands', hafter⟩ := h
  obtain ⟨n, rfl, hend⟩ := hstands'.eq_equal hnext
  cases hstands with
  | equal => exact absurd rfl hhere
  | delete old count new => exact absurd (hs.symm.trans (downCount_delete ..)) hpos
  | insert old count =>
    obtain ⟨hcount, hagree⟩ := startCount_agree a b i j (min n count)
    change startCount a b i j (min n count) = s at hs
    rw [hs] at hcount hagree
    have hn : s ≤ n := Nat.le_trans hcount (Nat.min_le_left n count)
    have hrest : Agree a b (i + s) (j + count + s) (n - s) := by
      rw [← Nat.add_sub_cancel' hn] at hend
      exact (agree_add.1 hend).2
    change s ≤ n ∧ Sound a b i j (.equal i j s :: .insert (old + s) (j + s) count ::
      .equal (i + s) (j + count + s) (n - s) :: after)
    simp only [sound_equal_cons, sound_insert_cons, Nat.add_right_comm j s count, true_and]
    refine ⟨hn, hagree, hrest, ?_⟩
    rw [Nat.add_assoc, Nat.add_assoc, Nat.add_sub_cancel' hn]
    exact hafter

end Sound

/-! ## Sliding -/

theorem reverse_cons_append (e : Edit) (before after : List Edit) :
    (e :: before).reverse ++ after = before.reverse ++ e :: after := by
  rw [List.reverse_cons, List.append_assoc, List.singleton_append]

/-- Equal elements in front of a script join an equal run at its beginning. -/
theorem sound_grown : Sound a b i j (.equal p q s :: after) →
    Sound a b i j (match after with
      | next :: rest =>
        if next.kind = .equal then next.growLeft s :: rest else .equal p q s :: next :: rest
      | [] => [.equal p q s]) := by
  intro h
  cases after with
  | nil => exact h
  | cons next rest =>
    by_cases hnext : next.kind = .equal
    · simp only [if_pos hnext]
      exact h.growLeft hnext
    · simp only [if_neg hnext]
      exact h

/-- Equal elements behind a script join an equal run at its end. -/
theorem sound_joined : Sound a b i j (before.reverse ++ .equal p q s :: rest) →
    Sound a b i j ((match before with
      | previous :: before =>
        if previous.kind = EditKind.equal then
          { previous with
            oldCount := previous.oldCount + s, newCount := previous.newCount + s } :: before
        else Edit.equal p q s :: previous :: before
      | [] => [Edit.equal p q s]).reverse ++ rest) := by
  intro h
  cases before with
  | nil => exact h
  | cons previous before =>
    by_cases hprevious : previous.kind = .equal
    · simp only [if_pos hprevious, reverse_cons_append] at h ⊢
      exact h.exchange _ fun i j h => h.absorb hprevious
    · simp only [if_neg hprevious, reverse_cons_append] at h ⊢
      exact h

/-- A run that slides up leaves a sound script, and keeps its kind. -/
theorem slideUp_sound (hkind : here.kind ≠ .equal)
    (h : Sound a b 0 0 (before.reverse ++ here :: after)) :
    let c := Cursor.slideUp a b before here after
    c.here.kind = here.kind ∧ Sound a b 0 0 (c.before.reverse ++ c.here :: c.after) := by
  fun_induction Cursor.slideUp a b before here after with
  | case1 here after => exact ⟨rfl, h⟩
  | case2 previous before here after hequal hempty ih =>
    rw [reverse_cons_append] at h
    exact ih hkind (h.exchange _ fun i j h => h.skip hempty.1 hempty.2)
  | case3 => exact ⟨rfl, h⟩
  | case4 previous before here after hequal hfull s hs after' here' shrunk hfits hempty ih =>
    rw [reverse_cons_append] at h
    refine ih hkind (h.exchange _ fun i j h => ?_)
    have hup := (h.up hequal hkind rfl hs).2.skip_of_isEmpty hempty
    exact hup.exchange [here'] fun i j h => sound_grown h
  | case5 previous before here after hequal hfull s hs after' here' shrunk hfits hrest ih =>
    rw [reverse_cons_append] at h
    refine ih hkind ?_
    rw [reverse_cons_append]
    refine h.exchange _ fun i j h => ?_
    have hup := (h.up hequal hkind rfl hs).2
    exact hup.exchange [shrunk, here'] fun i j h => sound_grown h
  | case6 previous before here after hequal hfull s hs after' here' hfits =>
    -- no run slides further than over the whole run before it
    rw [reverse_cons_append] at h
    have hle := ((sound_append.1 h).2.up hequal hkind rfl hs).1
    exact absurd ⟨Nat.pos_of_ne_zero hs, hle⟩ hfits
  | case7 previous before here after hchanged hsame ih =>
    rw [reverse_cons_append] at h
    obtain ⟨hhere, hsound⟩ := ih hchanged (h.exchange _ fun i j h => h.absorb hsame)
    exact ⟨hhere.trans hsame, hsound⟩
  | case8 previous before here after hchanged hother ih =>
    rw [reverse_cons_append] at h
    exact ih hkind (h.exchange _ fun i j h => h.swap hchanged hkind hother)

/-- A run that slides down leaves a sound script, and keeps its kind. -/
theorem slideDown_sound (hkind : here.kind ≠ .equal)
    (h : Sound a b 0 0 (before.reverse ++ here :: after)) :
    let c := Cursor.slideDown a b before here after
    c.here.kind = here.kind ∧ Sound a b 0 0 (c.before.reverse ++ c.here :: c.after) := by
  fun_induction Cursor.slideDown a b before here after with
  | case1 before here => exact ⟨rfl, h⟩
  | case2 before here next after hequal hempty ih =>
    refine ih hkind (h.exchange _ fun i j h => ?_)
    exact h.exchange [here] fun i j h => h.skip hempty.1 hempty.2
  | case3 => exact ⟨rfl, h⟩
  | case4 before here next after hequal hfull s hs before' here' shrunk hfits hempty ih =>
    refine ih hkind (sound_joined (h.exchange _ fun i j h => ?_))
    have hdown := (h.down hequal hkind rfl hs).2
    exact hdown.exchange [_, here'] fun i j h => h.skip_of_isEmpty hempty
  | case5 before here next after hequal hfull s hs before' here' shrunk hfits hrest ih =>
    exact ih hkind (sound_joined (h.exchange _ fun i j h => (h.down hequal hkind rfl hs).2))
  | case6 before here next after hequal hfull s hs before' here' hfits =>
    have hle := ((sound_append.1 h).2.down hequal hkind rfl hs).1
    exact absurd ⟨Nat.pos_of_ne_zero hs, hle⟩ hfits
  | case7 before here next after hchanged hsame ih =>
    exact ih hkind (h.exchange _ fun i j h => h.absorb hsame.symm)
  | case8 before here next after hchanged hother ih =>
    refine ih hkind ?_
    rw [reverse_cons_append]
    exact h.exchange _ fun i j h => h.swap hkind hchanged (Ne.symm hother)

/-! ## Every run of a kind -/

theorem compactKind_sound (kind : EditKind) (hkind : kind ≠ .equal) (fuel : Nat)
    (h : Sound a b 0 0 (before.reverse ++ after)) :
    Sound a b 0 0 (compactKind a b kind fuel before after) := by
  fun_induction compactKind a b kind fuel before after with
  | case1 => exact h
  | case2 => simpa using h
  | case3 before fuel here after hhere up down ih =>
    subst hhere
    obtain ⟨hup, hsound⟩ := slideUp_sound hkind h
    obtain ⟨-, hdown⟩ := slideDown_sound (hup ▸ hkind) hsound
    refine ih ?_
    rw [reverse_cons_append]
    exact hdown
  | case4 before fuel here after hother ih =>
    refine ih ?_
    rw [reverse_cons_append]
    exact h

theorem compact_sound {edits : List Edit} (h : Sound a b 0 0 edits) :
    Sound a b 0 0 (compact a b edits) :=
  compactKind_sound .insert nofun _ (compactKind_sound .delete nofun _ h)

/-! ## Joining neighbours -/

/-- The run that waits, if there is one, is of a fitting kind. -/
def Waiting (fits : EditKind → Prop) (waiting : Option Edit) : Prop :=
  ∀ e ∈ waiting, fits e.kind

theorem waiting_none {fits : EditKind → Prop} : Waiting fits none :=
  fun _ he => nomatch he

theorem Waiting.joinTo {fits : EditKind → Prop} {waiting : Option Edit} (h : Waiting fits waiting)
    (he : fits e.kind) : Waiting fits (joinTo waiting e) := by
  cases waiting with
  | none =>
    rintro _ ⟨⟩
    exact he
  | some w =>
    rintro _ ⟨⟩
    exact h w rfl

/-- Changed runs pair nothing. -/
theorem equalPairs_settle {deleted inserted : Option Edit} (hdeleted : Waiting (· ≠ .equal) deleted)
    (hinserted : Waiting (· ≠ .equal) inserted) : equalPairs (settle deleted inserted) = [] := by
  refine List.flatMap_eq_nil_iff.2 fun e he => if_neg ?_
  cases deleted with
  | none =>
    cases inserted with
    | none => cases he
    | some i => exact hinserted e (by simpa [settle, eq_comm] using he)
  | some d =>
    cases inserted with
    | none => exact hdeleted e (by simpa [settle, eq_comm] using he)
    | some i =>
      obtain rfl : e = ⟨.replace, d.old, d.oldCount, i.new, i.newCount⟩ := by
        simpa [settle] using he
      nofun

theorem Sound.joinTo {waiting : Option Edit} (h : Sound a b i j (waiting.toList ++ e :: rest))
    (hwaiting : Waiting (· = e.kind) waiting) :
    Sound a b i j ((joinTo waiting e).toList ++ rest) := by
  cases waiting with
  | none => exact h
  | some w => exact h.absorb (hwaiting w rfl)

/-- **The equal runs of a joined script are an alignment.**  An equal run that waits stands in
front of the rest; the changed runs that wait pair nothing. -/
theorem joinRuns_isAlignment {same deleted inserted : Option Edit} {edits : List Edit}
    (hsame : Waiting (· = .equal) same) (hdeleted : Waiting (· ≠ .equal) deleted)
    (hinserted : Waiting (· ≠ .equal) inserted) (h : Sound a b i j (same.toList ++ edits)) :
    IsAlignment a.toList b.toList i j (equalPairs (joinRuns same deleted inserted edits)) := by
  induction edits generalizing i j same deleted inserted with
  | nil =>
    rw [joinRuns, equalPairs_append, equalPairs_settle hdeleted hinserted]
    exact (sound_append.1 h).1.append_isAlignment (.nil _ _)
  | cons e rest ih =>
    obtain ⟨hfirst, hstands, hrest⟩ := sound_append.1 h
    cases hstands with
    | @equal n hagree =>
      change IsAlignment _ _ i j (equalPairs (settle deleted inserted ++
        joinRuns (Diff.joinTo same _) none none rest))
      rw [equalPairs_append, equalPairs_settle hdeleted hinserted]
      exact ih (hsame.joinTo rfl) waiting_none waiting_none (h.joinTo hsame)
    | delete old count new =>
      change IsAlignment _ _ i j (equalPairs (same.toList ++
        joinRuns none (Diff.joinTo deleted _) inserted rest))
      rw [equalPairs_append]
      have hwaiting : Waiting (· ≠ .equal) (Diff.joinTo deleted (.delete old count new)) :=
        hdeleted.joinTo fun hkind => by cases hkind
      have htail := ih (@waiting_none (· = .equal)) hwaiting hinserted hrest
      exact hfirst.append_isAlignment (htail.mono (Nat.le_add_right ..) (Nat.le_add_right ..))
    | insert old count =>
      change IsAlignment _ _ i j (equalPairs (same.toList ++
        joinRuns none deleted (Diff.joinTo inserted _) rest))
      rw [equalPairs_append]
      have hwaiting : Waiting (· ≠ .equal)
          (Diff.joinTo inserted (.insert old (j + total Edit.newCount same.toList) count)) :=
        hinserted.joinTo fun hkind => by cases hkind
      have htail := ih (@waiting_none (· = .equal)) hdeleted hwaiting hrest
      exact hfirst.append_isAlignment (htail.mono (Nat.le_add_right ..) (Nat.le_add_right ..))

end CellReview.Diff
