import CellReview.Proofs.Diff.Frontier

/-!
# The split lies inside both ranges

The search from the start and the one from the end take turns.  A turn visits the diagonals of
its round and changes one working row, on these diagonals only.  When the searches meet, the
split that is reported lies inside both ranges, whatever an earlier search left in the rows.

* `Visited` — a row in the course of a turn;
* `Turn` — the state of a search in the course of a turn;
* `stepForward_turn`, `stepBackward_turn` — a step of either search;
* `Searching` — the state between two rounds, `Searching.round` from one to the next;
* `middleSnake?_within` — **the split lies inside both ranges**.
-/

namespace CellReview.Diff

variable {n m c d reach : Nat} {r r' other : Row} {k : Int} {seen : List Int}

/-! ## A row in the course of a turn -/

/-- The row `r` of one search after it has visited some diagonals of a round, while the row of
the other search stays as it is, and they have not met. -/
structure Visited (n m c d reach : Nat) (r other : Row) (seen : List Int) (r' : Row) : Prop where
  wide : r'.Wide reach
  kept : ∀ l, ¬ OnRound d l → r'.get l = r.get l
  goes : ∀ k ∈ seen, GoesTo n m k (r.arrive d k) (r'.get k)
  apart : ∀ k ∈ seen, CanMeet n m c d k → r'.get k + other.get (-(k - (n - m))) < n

namespace Visited

theorem arrive_eq (h : Visited n m c d reach r other seen r') (hk : OnRound d k) :
    r'.arrive d k = r.arrive d k := by
  rw [Row.arrive, Row.arrive, h.kept _ (hk.not_onRound (.inl rfl)),
    h.kept _ (hk.not_onRound (.inr rfl))]

/-- A visit to one more diagonal. -/
theorem set (h : Visited n m c d reach r other seen r') (hd : d < reach) (hk : OnRound d k)
    {z : Nat} (hz : GoesTo n m k (r.arrive d k) z)
    (hapart : CanMeet n m c d k → z + other.get (-(k - (n - m))) < n) :
    Visited n m c d reach r other (seen ++ [k]) (r'.set k z) := by
  have hin : k.natAbs < reach := Nat.lt_of_le_of_lt hk.1 hd
  have hself := h.wide.get_set_self hin z
  have hne : ∀ l, l ≠ k → (r'.set k z).get l = r'.get l := fun l hl => h.wide.get_set_of_ne hin hl z
  refine ⟨h.wide.set k z, fun l hl => ?_, fun l hl => ?_, fun l hl => ?_⟩
  · rw [hne l fun heq => hl (heq ▸ hk)]
    exact h.kept l hl
  · by_cases heq : l = k
    · rw [heq, hself]
      exact hz
    · rw [hne l heq]
      exact h.goes l (by simpa [heq] using hl)
  · by_cases heq : l = k
    · rw [heq, hself]
      exact hapart
    · rw [hne l heq]
      exact h.apart l (by simpa [heq] using hl)

/-- After a whole turn the row is ready for the next round. -/
theorem ready (h : Visited n m c d reach r other (diagonals d) r') (hr : Ready n m c d r)
    (hother : ∀ k, OnRound d k → CanMeet n m c d k →
      -(k - (n - m)) ≤ other.get (-(k - (n - m)))) : Ready n m c (d + 1) r' := by
  refine ⟨hr.furthest fun k hk => h.goes k (mem_diagonals.2 hk), fun k hk hmeet => ?_⟩
  have hapart := h.apart k (mem_diagonals.2 hk) hmeet
  have hlow := hother k hk hmeet
  omega

end Visited

/-! ## Turns -/

/-- Whether a split lies inside both ranges. -/
def Within (ra rb : Range) (p : Int × Int) : Prop :=
  (ra.first ≤ p.1 ∧ p.1 ≤ ra.first + ra.count) ∧ rb.first ≤ p.2 ∧ p.2 ≤ rb.first + rb.count

/-- The state of a search in the course of a turn that began with the given rows. -/
structure Turn (mine theirs : Rows → Row) (ra rb : Range) (c d reach : Nat) (rows : Rows)
    (seen : List Int) (s : Search) : Prop where
  wide : (mine s.rows).Wide reach
  wideTheirs : (theirs s.rows).Wide reach
  within : ∀ p, s.found = some p → Within ra rb p
  visited : s.found = none → theirs s.rows = theirs rows ∧
    Visited ra.count rb.count c d reach (mine rows) (theirs rows) seen (mine s.rows)

/-- A turn begins. -/
theorem Turn.start {mine theirs : Rows → Row} {ra rb : Range} {s : Search}
    (hmine : (mine s.rows).Wide reach) (htheirs : (theirs s.rows).Wide reach)
    (hwithin : ∀ p, s.found = some p → Within ra rb p) :
    Turn mine theirs ra rb c d reach s.rows [] s where
  wide := hmine
  wideTheirs := htheirs
  within := hwithin
  visited _ := ⟨rfl, hmine, fun _ _ => rfl, fun _ hk => absurd hk List.not_mem_nil,
    fun _ hk => absurd hk List.not_mem_nil⟩

section Steps

variable {α : Type} [BEq α] {a b : Array α} {mine theirs : Rows → Row} {ra rb : Range}
  {rows : Rows} {s : Search}

/-- A step once the split is found. -/
theorem Turn.stay (h : Turn mine theirs ra rb c d reach rows seen s) (hfound : s.found.isSome) :
    Turn mine theirs ra rb c d reach rows (seen ++ [k]) s where
  wide := h.wide
  wideTheirs := h.wideTheirs
  within := h.within
  visited hnone := by
    rw [hnone] at hfound
    cases hfound

/-- A step before that. -/
theorem Turn.visit (h : Turn mine theirs ra rb c d reach rows seen s) (hnone : s.found = none)
    (hd : d < reach) (hk : OnRound d k) {next : Search} {z : Nat}
    (hmine : mine next.rows = (mine s.rows).set k z) (htheirs : theirs next.rows = theirs s.rows)
    (hz : GoesTo ra.count rb.count k ((mine s.rows).arrive d k) z)
    (hwithin : ∀ p, next.found = some p → Within ra rb p)
    (hapart : next.found = none → CanMeet ra.count rb.count c d k →
      z + (theirs s.rows).get (-(k - (ra.count - rb.count))) < ra.count) :
    Turn mine theirs ra rb c d reach rows (seen ++ [k]) next := by
  obtain ⟨hkept, hvisited⟩ := h.visited hnone
  refine ⟨?_, ?_, hwithin, fun hnext => ⟨htheirs.trans hkept, ?_⟩⟩
  · rw [hmine]
    exact h.wide.set k z
  · rw [htheirs]
    exact h.wideTheirs
  · rw [hvisited.arrive_eq hk] at hz
    rw [hkept] at hapart
    rw [hmine]
    exact hvisited.set hd hk hz (hapart hnext)

/-- The search from the start goes on along equal elements. -/
theorem goesTo_forward (a b : Array α) (ra rb : Range) (k : Int) (x : Nat) :
    GoesTo ra.count rb.count k x
      (if x < ra.count ∧ 0 ≤ (x : Int) - k ∧ (x : Int) - k < rb.count then
        x + startCount a b (ra.first + x) (rb.first + ((x : Int) - k).toNat)
          (min (ra.past - (ra.first + x)) (rb.past - (rb.first + ((x : Int) - k).toNat)))
      else x) := by
  split
  · rename_i hin
    have hcount := (startCount_agree a b (ra.first + x) (rb.first + ((x : Int) - k).toNat)
      (min (ra.past - (ra.first + x)) (rb.past - (rb.first + ((x : Int) - k).toNat)))).1
    unfold GoesTo Range.count at *
    omega
  · exact .inl rfl

/-- The search from the end goes on along equal elements. -/
theorem goesTo_backward (a b : Array α) (ra rb : Range) (k : Int) (x : Nat) :
    GoesTo ra.count rb.count k x
      (x + if x < ra.count ∧ 0 ≤ (x : Int) - k ∧ (x : Int) - k < rb.count then
        endCount a b (ra.first + ra.count - x) (rb.first + rb.count - ((x : Int) - k).toNat)
          (min (ra.count - x) (rb.count - ((x : Int) - k).toNat))
      else 0) := by
  split
  · rename_i hin
    have hcount := (endCount_agree a b (ra.first + ra.count - x)
      (rb.first + rb.count - ((x : Int) - k).toNat)
      (min (ra.count - x) (rb.count - ((x : Int) - k).toNat))).1
    unfold GoesTo
    omega
  · exact .inl rfl

/-- A step of the search from the start.  A split is taken only where the step before it arrives
inside both ranges. -/
theorem stepForward_turn (hready : Ready ra.count rb.count 1 d rows.forward) (hd : d < reach)
    (hk : OnRound d k) (h : Turn Rows.forward Rows.backward ra rb 1 d reach rows seen s) :
    Turn Rows.forward Rows.backward ra rb 1 d reach rows (seen ++ [k])
      (stepForward a b ra rb d s k) := by
  by_cases hfound : s.found.isSome
  · rw [stepForward, if_pos hfound]
    exact h.stay hfound
  have hnone : s.found = none := by simpa using hfound
  have harrive := (h.visited hnone).2.arrive_eq hk
  rw [stepForward, if_neg hfound]
  refine h.visit hnone hd hk rfl rfl (goesTo_forward a b ra rb k _) (fun p hp => ?_)
    fun hnone hmeet => ?_
  · obtain ⟨hmeets, hp⟩ := Option.ite_none_right_eq_some.1 hp
    obtain rfl := Option.some.inj hp
    have hlow := hready.le_arrive hk
    have hin := hready.arrive_le (Nat.le_refl 1) hk ⟨by omega, hmeets.2.1⟩
    unfold Within
    omega
  · have hparity := hmeet.1
    refine Nat.lt_of_not_le fun hle => ?_
    cases ite_eq_right_iff.1 hnone ⟨by omega, hmeet.2, hle⟩

/-- A step of the search from the end.  Equal elements do not lead out of the ranges, so the split
lies inside them where the step arrives there. -/
theorem stepBackward_turn (hready : Ready ra.count rb.count 0 d rows.backward) (hd : d < reach)
    (hk : OnRound d k) (h : Turn Rows.backward Rows.forward ra rb 0 d reach rows seen s) :
    Turn Rows.backward Rows.forward ra rb 0 d reach rows (seen ++ [k])
      (stepBackward a b ra rb d s k) := by
  by_cases hfound : s.found.isSome
  · rw [stepBackward, if_pos hfound]
    exact h.stay hfound
  have hnone : s.found = none := by simpa using hfound
  have harrive := (h.visited hnone).2.arrive_eq hk
  have hgoes := goesTo_backward a b ra rb k (s.rows.backward.arrive d k)
  rw [stepBackward, if_neg hfound]
  refine h.visit hnone hd hk rfl rfl hgoes (fun p hp => ?_) fun hnone hmeet => ?_
  · obtain ⟨hmeets, hp⟩ := Option.ite_none_right_eq_some.1 hp
    obtain rfl := Option.some.inj hp
    have hlow := hready.le_arrive hk
    have hin := hready.arrive_le (Nat.zero_le 1) hk ⟨by omega, hmeets.2.1⟩
    rw [harrive] at hgoes ⊢
    unfold GoesTo at hgoes
    unfold Within
    omega
  · have hparity := hmeet.1
    refine Nat.lt_of_not_le fun hle => ?_
    cases ite_eq_right_iff.1 hnone ⟨by omega, hmeet.2, hle⟩

/-- A whole turn, one diagonal after the other. -/
theorem foldl_turn (step : Search → Int → Search)
    (hstep : ∀ s seen, ∀ k, OnRound d k → Turn mine theirs ra rb c d reach rows seen s →
      Turn mine theirs ra rb c d reach rows (seen ++ [k]) (step s k))
    (h : Turn mine theirs ra rb c d reach rows [] s) :
    Turn mine theirs ra rb c d reach rows (diagonals d) ((diagonals d).foldl step s) := by
  suffices hfold : ∀ ks seen s, (∀ k ∈ ks, OnRound d k) →
      Turn mine theirs ra rb c d reach rows seen s →
      Turn mine theirs ra rb c d reach rows (seen ++ ks) (ks.foldl step s) from
    hfold (diagonals d) [] s (fun k hk => mem_diagonals.1 hk) h
  intro ks
  induction ks with
  | nil =>
    intro seen s _ h
    rwa [List.append_nil]
  | cons k ks ih =>
    intro seen s hks h
    rw [List.append_cons]
    exact ih (seen ++ [k]) (step s k) (fun l hl => hks l (List.mem_cons_of_mem k hl))
      (hstep s seen k (hks k List.mem_cons_self) h)

theorem foldl_stepBackward_of_found (hfound : s.found.isSome) (ks : List Int) :
    ks.foldl (stepBackward a b ra rb d) s = s := by
  induction ks with
  | nil => rfl
  | cons k ks ih => rw [List.foldl_cons, stepBackward, if_pos hfound, ih]

/-! ## All rounds -/

/-- The state of a search before the round with `d` changes. -/
structure Searching (ra rb : Range) (d reach : Nat) (s : Search) : Prop where
  forwardWide : s.rows.forward.Wide reach
  backwardWide : s.rows.backward.Wide reach
  within : ∀ p, s.found = some p → Within ra rb p
  forwardReady : s.found = none → Ready ra.count rb.count 1 d s.rows.forward
  backwardReady : s.found = none → Ready ra.count rb.count 0 d s.rows.backward

/-- A round keeps the invariant: a turn of the search from the start, then one of the search from
the end, which looks at the entries that the first one has just found. -/
theorem Searching.round (h : Searching ra rb d reach s) (hnone : s.found = none)
    (hd : d < reach) :
    Searching ra rb (d + 1) reach ((diagonals d).foldl (stepBackward a b ra rb d)
      ((diagonals d).foldl (stepForward a b ra rb d) s)) := by
  have hforward := foldl_turn (stepForward a b ra rb d)
    (fun s seen k hk hs => stepForward_turn (h.forwardReady hnone) hd hk hs)
    (Turn.start (c := 1) h.forwardWide h.backwardWide h.within)
  generalize (diagonals d).foldl (stepForward a b ra rb d) s = s₁ at hforward ⊢
  by_cases hfound : s₁.found.isSome
  · have hsome : s₁.found ≠ none := by rwa [Option.isSome_iff_ne_none] at hfound
    rw [foldl_stepBackward_of_found hfound]
    exact ⟨hforward.wide, hforward.wideTheirs, hforward.within, fun h => absurd h hsome,
      fun h => absurd h hsome⟩
  have hnone₁ : s₁.found = none := by simpa using hfound
  obtain ⟨hkept, hvisited⟩ := hforward.visited hnone₁
  have hbackwardReady : Ready ra.count rb.count 0 d s₁.rows.backward := by
    rw [hkept]
    exact h.backwardReady hnone
  have hforwardReady : Ready ra.count rb.count 1 (d + 1) s₁.rows.forward := by
    refine hvisited.ready (h.forwardReady hnone) fun k hk hmeet => ?_
    cases d with
    | zero => exact absurd hmeet.2 (by omega)
    | succ e => exact (h.backwardReady hnone).1.opposite hk hmeet
  have hbackward := foldl_turn (stepBackward a b ra rb d)
    (fun s seen k hk hs => stepBackward_turn hbackwardReady hd hk hs)
    (Turn.start (c := 0) hforward.wideTheirs hforward.wide hforward.within)
  generalize (diagonals d).foldl (stepBackward a b ra rb d) s₁ = s₂ at hbackward ⊢
  refine ⟨hbackward.wideTheirs, hbackward.wide, hbackward.within, fun hnone₂ => ?_,
    fun hnone₂ => ?_⟩
  · rw [(hbackward.visited hnone₂).1]
    exact hforwardReady
  · exact (hbackward.visited hnone₂).2.ready hbackwardReady fun k hk hmeet =>
      hforwardReady.1.opposite (c := 0) hk hmeet

/-- The rounds are over when the split is found, or after the last of them. -/
theorem searchFrom_searching (rounds : Nat) (h : Searching ra rb d reach s)
    (hnone : s.found = none) (hrounds : d + rounds ≤ reach) :
    ∃ e, Searching ra rb e reach (searchFrom a b ra rb s d rounds) := by
  induction rounds generalizing s d with
  | zero => exact ⟨d, h⟩
  | succ rounds ih =>
    have hround := h.round (a := a) (b := b) hnone (by omega)
    rw [searchFrom]
    split
    · exact ⟨d + 1, hround⟩
    · rename_i hfound
      exact ih hround (by simpa using hfound) (by omega)

end Steps

/-! ## The split -/

/-- Both working rows are wide enough for ranges of up to so many elements. -/
def Rows.Wide (reach : Nat) (rows : Rows) : Prop :=
  rows.forward.Wide reach ∧ rows.backward.Wide reach

/-- **The split lies inside both ranges**, whatever the working rows hold. -/
theorem middleSnake?_within {α : Type} [BEq α] (a b : Array α) {ra rb : Range} {rows : Rows}
    (hrows : rows.Wide reach) (hreach : (ra.count + rb.count + 1) / 2 + 1 ≤ reach)
    (ha : 0 < ra.count) (hb : 0 < rb.count) :
    (middleSnake? a b ra rb rows).1.Wide reach ∧
      ∀ x y, (middleSnake? a b ra rb rows).2 = some (x, y) →
        (ra.first ≤ x ∧ x ≤ ra.past) ∧ rb.first ≤ y ∧ y ≤ rb.past := by
  have hone : (1 : Int).natAbs < reach := by omega
  have hstart : Searching ra rb 0 reach
      ⟨⟨rows.forward.set 1 0, rows.backward.set 1 0⟩, none⟩ :=
    ⟨hrows.1.set 1 0, hrows.2.set 1 0, (fun _ hp => nomatch hp),
      fun _ => hrows.1.get_set_self hone 0, fun _ => hrows.2.get_set_self hone 0⟩
  obtain ⟨d, hend⟩ := searchFrom_searching (a := a) (b := b)
    ((ra.count + rb.count + 1) / 2 + 1) hstart rfl (by omega)
  refine ⟨⟨hend.forwardWide, hend.backwardWide⟩, fun x y hsplit => ?_⟩
  obtain ⟨p, hp, hxy⟩ := Option.map_eq_some_iff.1 hsplit
  have hwithin := hend.within p hp
  rw [Prod.mk.injEq] at hxy
  unfold Within Range.count at *
  omega

end CellReview.Diff
