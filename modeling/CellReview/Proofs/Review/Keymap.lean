import CellReview.Proofs.Text.ByteOrder
import CellReview.Proofs.Text.Words
import CellReview.Review.Keymap
import Mathlib.Data.List.Nodup
import Mathlib.Data.String.Basic

/-!
# The table of keystrokes

A keymap answers for the last binding of a keystroke, however the keystroke is spelled, and
shows for a command the least of the keystrokes that ask for it now.

* `SameKey` — two spellings of one keystroke;
* `normalKey_eq_iff`, `normalKey_normalKey` — the normal form tells exactly the keystrokes apart;
* `Keymap.Tidy`, `Keymap.Tidy.bind` — the keys of a table are normal and each stands there once;
* `Keymap.lookup_bind`, `Keymap.lookup_bindAll` — what one binding changes, and what a sequence
  of them leads to;
* `Keymap.keystrokeFor?_eq_none_iff`, `Keymap.keystrokeFor?_eq_some_iff` — what is shown for a
  command;
* `keymap_answers_last_binding` — **every table that settings and bindings make**.
-/

namespace CellReview.Review

open Chars (IsWord)

/-! ## Normal forms -/

/-- Two spellings of one keystroke: word by word the same but for the case of `A` to `Z`. -/
def SameKey (a b : String) : Prop :=
  (Chars.words a.toList).map Chars.lower = (Chars.words b.toList).map Chars.lower

instance (a b : String) : Decidable (SameKey a b) :=
  inferInstanceAs (Decidable (_ = _))

theorem isWord_of_mem_lowered {a : String} {w : List Char}
    (h : w ∈ (Chars.words a.toList).map Chars.lower) : IsWord w := by
  obtain ⟨v, hv, rfl⟩ := List.mem_map.1 h
  exact (Chars.isWord_of_mem_words hv).lower

/-- The words of a normal form. -/
theorem words_normalKey (a : String) :
    Chars.words (normalKey a).toList = (Chars.words a.toList).map Chars.lower := by
  rw [normalKey, String.toList_ofList]
  exact Chars.words_intercalate fun w => isWord_of_mem_lowered

/-- The normal form tells exactly the keystrokes apart. -/
theorem normalKey_eq_iff {a b : String} : normalKey a = normalKey b ↔ SameKey a b := by
  constructor
  · intro h
    rw [SameKey, ← words_normalKey, h, words_normalKey]
  · intro h
    rw [normalKey, h, normalKey]

theorem normalKey_normalKey (a : String) : normalKey (normalKey a) = normalKey a := by
  rw [normalKey_eq_iff, SameKey, words_normalKey, List.map_map]
  exact List.map_congr_left fun w _ => Chars.lower_lower w

theorem isEmpty_normalKey (a : String) : (normalKey a).isEmpty = Text.isBlankText a := by
  rw [Bool.eq_iff_iff, String.isEmpty_iff, Text.isBlankText, List.all_eq_true]
  refine Iff.trans ?_ Chars.words_eq_nil_iff
  constructor
  · intro h
    have hwords := words_normalKey a
    rw [h] at hwords
    exact List.map_eq_nil_iff.1 hwords.symm
  · intro h
    rw [normalKey, h]
    rfl

namespace Keymap

variable {k : Keymap}

/-! ## One binding -/

/-- The keys of a table are normal, none is blank, and each stands there once. -/
structure Tidy (k : Keymap) : Prop where
  normal : ∀ entry ∈ k.bindings, normalKey entry.1 = entry.1
  solid : ∀ entry ∈ k.bindings, Text.isBlankText entry.1 = false
  once : (k.bindings.map (·.1)).Nodup

theorem tidy_empty : empty.Tidy :=
  ⟨List.forall_mem_nil _, List.forall_mem_nil _, List.nodup_nil⟩

theorem bind_of_blank {keystroke : String} (h : Text.isBlankText keystroke = true) (c : Command) :
    k.bind keystroke c = k := by
  simp only [bind, isEmpty_normalKey, h, if_true]

theorem bindings_bind {keystroke : String} (h : Text.isBlankText keystroke = false) (c : Command) :
    (k.bind keystroke c).bindings =
      (normalKey keystroke, c) ::
        k.bindings.filter fun entry => entry.1 != normalKey keystroke := by
  simp only [bind, isEmpty_normalKey, h, Bool.false_eq_true, if_false]

/-- A binding keeps the table tidy. -/
theorem Tidy.bind (h : k.Tidy) (keystroke : String) (c : Command) : (k.bind keystroke c).Tidy := by
  by_cases hblank : Text.isBlankText keystroke = true
  · rwa [bind_of_blank hblank]
  · have hsolid : Text.isBlankText keystroke = false := by simpa using hblank
    have hkey : Text.isBlankText (normalKey keystroke) = false := by
      rw [← isEmpty_normalKey, normalKey_normalKey, isEmpty_normalKey, hsolid]
    have hb := bindings_bind (k := k) hsolid c
    refine ⟨?normal, ?solid, ?once⟩
    case normal =>
      rw [hb]
      exact List.forall_mem_cons.2
        ⟨normalKey_normalKey keystroke, fun e he => h.normal e (List.mem_of_mem_filter he)⟩
    case solid =>
      rw [hb]
      exact List.forall_mem_cons.2 ⟨hkey, fun e he => h.solid e (List.mem_of_mem_filter he)⟩
    case once =>
      rw [hb]
      refine List.nodup_cons.2 ⟨fun hmem => ?_, h.once.sublist (List.filter_sublist.map _)⟩
      obtain ⟨e, he, hkey⟩ := List.mem_map.1 hmem
      exact absurd hkey (by simpa using (List.mem_filter.1 he).2)

/-- A binding answers for its keystroke in every spelling, and for no other. -/
theorem lookup_bind (k : Keymap) (keystroke : String) (c : Command) (key : String) :
    (k.bind keystroke c).lookup key =
      if Text.isBlankText keystroke = false ∧ SameKey keystroke key then some c
      else k.lookup key := by
  by_cases hblank : Text.isBlankText keystroke = true
  · rw [bind_of_blank hblank, if_neg fun h => by simp [hblank] at h]
  · have hsolid : Text.isBlankText keystroke = false := by simpa using hblank
    rw [lookup, bindings_bind hsolid]
    by_cases hsame : SameKey keystroke key
    · have hkey := normalKey_eq_iff.2 hsame
      rw [if_pos ⟨hsolid, hsame⟩, List.find?_cons_of_pos (by simpa using hkey)]
      rfl
    · have hkey := mt normalKey_eq_iff.1 hsame
      rw [if_neg fun h => hsame h.2, List.find?_cons_of_neg (by simpa using hkey),
        List.find?_filter, lookup]
      refine congrArg (fun p => (k.bindings.find? p).map (·.2)) (funext fun e => ?_)
      -- an entry that the binding took away is not under the key that is looked up
      by_cases he : e.1 = normalKey key
      · simp [he, Ne.symm hkey]
      · simp [he]

/-- The keystroke of a key that is bound is that key. -/
theorem Tidy.lookup_eq_some_iff (h : k.Tidy) {key : String} {c : Command} :
    k.lookup key = some c ↔ (normalKey key, c) ∈ k.bindings := by
  constructor
  · intro hfound
    obtain ⟨e, he, rfl⟩ := Option.map_eq_some_iff.1 hfound
    have hkey : e.1 = normalKey key := by simpa using List.find?_some he
    rw [← hkey]
    exact List.mem_of_find?_eq_some he
  · intro hmem
    obtain ⟨e, he⟩ : ∃ e, k.bindings.find? (fun e => e.1 == normalKey key) = some e :=
      Option.isSome_iff_exists.1 (List.find?_isSome.2 ⟨_, hmem, by simp⟩)
    have hkey : e.1 = normalKey key := by simpa using List.find?_some he
    -- as every key stands there once, what was found is the entry
    have heq : e = (normalKey key, c) :=
      List.inj_on_of_nodup_map h.once (List.mem_of_find?_eq_some he) hmem hkey
    rw [lookup, he, heq]
    rfl

/-! ## Sequences of bindings -/

/-- Bind keystrokes one after the other. -/
def bindAll (k : Keymap) (bindings : List (String × Command)) : Keymap :=
  bindings.foldl (fun k b => k.bind b.1 b.2) k

theorem bindAll_cons (k : Keymap) (b : String × Command) (bindings : List (String × Command)) :
    k.bindAll (b :: bindings) = (k.bind b.1 b.2).bindAll bindings := by
  simp only [bindAll, List.foldl_cons]

/-- The command of the last binding of a keystroke, in whatever spelling. -/
def lastBound? (bindings : List (String × Command)) (key : String) : Option Command :=
  (bindings.reverse.find? fun b => SameKey b.1 key).map (·.2)

/-- The bindings that the settings ask for. -/
def settingsBindings (s : KeySettings) : List (String × Command) :=
  [(s.accept, .acceptLatest), (s.reject, .rejectLatest)]

theorem ofSettings_eq (s : KeySettings) : ofSettings s = empty.bindAll (settingsBindings s) := by
  simp only [ofSettings, settingsBindings, bindAll, List.foldl_cons, List.foldl_nil]

theorem Tidy.bindAll (h : k.Tidy) (bindings : List (String × Command)) :
    (k.bindAll bindings).Tidy := by
  induction bindings generalizing k with
  | nil => exact h
  | cons b bindings ih =>
    rw [bindAll_cons]
    exact ih (h.bind b.1 b.2)

theorem lookup_of_blank (h : k.Tidy) {key : String} (hkey : Text.isBlankText key = true) :
    k.lookup key = none := by
  rw [Option.eq_none_iff_forall_ne_some]
  intro c hc
  have hsolid := h.solid _ (h.lookup_eq_some_iff.1 hc)
  rw [← isEmpty_normalKey, normalKey_normalKey, isEmpty_normalKey, hkey] at hsolid
  cases hsolid

/-- A blank keystroke is one keystroke. -/
theorem isBlankText_eq_of_sameKey {a b : String} (h : SameKey a b) :
    Text.isBlankText a = Text.isBlankText b := by
  rw [← isEmpty_normalKey, normalKey_eq_iff.2 h, isEmpty_normalKey]

/-- A sequence of bindings answers for the last one of a keystroke, and what none of them is of
is answered as before. -/
theorem lookup_bindAll (bindings : List (String × Command)) {key : String}
    (hkey : Text.isBlankText key = false) :
    (k.bindAll bindings).lookup key = (lastBound? bindings key).or (k.lookup key) := by
  induction bindings generalizing k with
  | nil => rfl
  | cons b bindings ih =>
    rw [bindAll_cons, ih, lookup_bind, lastBound?, lastBound?, List.reverse_cons,
      List.find?_append]
    cases bindings.reverse.find? fun b => SameKey b.1 key with
    | some later => rfl
    | none =>
      by_cases hsame : SameKey b.1 key
      · have hsolid : Text.isBlankText b.1 = false := (isBlankText_eq_of_sameKey hsame).trans hkey
        simp [hsame, hsolid]
      · simp [hsame]

/-! ## The keystroke of a command -/

theorem foldl_lesser (b : String) (keys : List String) :
    keys.foldl lesser (some b) = some (keys.foldl min b) := by
  induction keys generalizing b with
  | nil => rfl
  | cons key keys ih =>
    have hmin : lesser (some b) key = some (min b key) := by
      rw [lesser, min_def]
      split <;> split <;> grind
    rw [List.foldl_cons, List.foldl_cons, hmin, ih]

/-- What is shown for a command is the least of its keys. -/
theorem keystrokeFor?_eq_min? (k : Keymap) (c : Command) :
    k.keystrokeFor? c = ((k.bindings.filter fun entry => entry.2 == c).map (·.1)).min? := by
  rw [keystrokeFor?]
  cases (k.bindings.filter fun entry => entry.2 == c).map (·.1) with
  | nil => rfl
  | cons key keys => exact foldl_lesser key keys

theorem mem_keys_iff {key : String} {c : Command} :
    key ∈ (k.bindings.filter fun entry => entry.2 == c).map (·.1) ↔ (key, c) ∈ k.bindings := by
  simp

/-- The keys of a command are the normal keystrokes that ask for it. -/
theorem Tidy.mem_bindings_iff (h : k.Tidy) {key : String} {c : Command} :
    (key, c) ∈ k.bindings ↔ normalKey key = key ∧ k.lookup key = some c := by
  rw [h.lookup_eq_some_iff]
  constructor
  · intro hmem
    have hkey := h.normal _ hmem
    exact ⟨hkey, by rwa [hkey]⟩
  · rintro ⟨hkey, hmem⟩
    rwa [hkey] at hmem

theorem keystrokeFor?_eq_none_iff (h : k.Tidy) {c : Command} :
    k.keystrokeFor? c = none ↔ ∀ key, k.lookup key ≠ some c := by
  rw [keystrokeFor?_eq_min?, List.min?_eq_none_iff, List.eq_nil_iff_forall_not_mem]
  constructor
  · intro hnone key hkey
    exact hnone (normalKey key) (mem_keys_iff.2 (h.lookup_eq_some_iff.1 hkey))
  · intro hnone key hkey
    exact hnone key (h.mem_bindings_iff.1 (mem_keys_iff.1 hkey)).2

theorem keystrokeFor?_eq_some_iff (h : k.Tidy) {c : Command} {key : String} :
    k.keystrokeFor? c = some key ↔
      (normalKey key = key ∧ k.lookup key = some c) ∧
        ∀ other, normalKey other = other → k.lookup other = some c →
          key = other ∨ Text.ByteLt key other := by
  rw [keystrokeFor?_eq_min?, List.min?_eq_some_iff, mem_keys_iff, h.mem_bindings_iff]
  refine and_congr_right fun _ => forall_congr' fun other => ?_
  rw [mem_keys_iff, h.mem_bindings_iff, and_imp, le_iff_eq_or_lt, Text.byteLt_iff]

/-! ## Every table -/

theorem tidy_ofSettings (s : KeySettings) : (ofSettings s).Tidy := by
  rw [ofSettings_eq]
  exact tidy_empty.bindAll (settingsBindings s)

theorem lookup_ofSettings (s : KeySettings) {key : String} (hkey : Text.isBlankText key = false) :
    (ofSettings s).lookup key = lastBound? (settingsBindings s) key := by
  rw [ofSettings_eq, lookup_bindAll _ hkey]
  exact Option.or_none

end Keymap

open Keymap

/-- Whatever the settings are and whatever is bound behind them: a keystroke asks for the command
of its last binding, in whatever spelling either stands, and a blank one for nothing; and for a
command the table shows no keystroke exactly when none asks for it, and else the one that comes
first, in the order of their bytes, among the normal ones that do. -/
theorem keymap_answers_last_binding (s : KeySettings) (later : List (String × Command)) :
    (∀ key, ((ofSettings s).bindAll later).lookup key =
      if Text.isBlankText key = true then none
      else lastBound? (settingsBindings s ++ later) key) ∧
    ∀ c,
      (((ofSettings s).bindAll later).keystrokeFor? c = none ↔
        ∀ key, ((ofSettings s).bindAll later).lookup key ≠ some c) ∧
      ∀ key, ((ofSettings s).bindAll later).keystrokeFor? c = some key ↔
        (normalKey key = key ∧ ((ofSettings s).bindAll later).lookup key = some c) ∧
          ∀ other, normalKey other = other →
            ((ofSettings s).bindAll later).lookup other = some c →
              key = other ∨ Text.ByteLt key other := by
  have htidy : ((ofSettings s).bindAll later).Tidy := (tidy_ofSettings s).bindAll later
  refine ⟨fun key => ?lookup, fun c =>
    ⟨keystrokeFor?_eq_none_iff htidy, fun key => keystrokeFor?_eq_some_iff htidy⟩⟩
  case lookup =>
    by_cases hkey : Text.isBlankText key = true
    · rw [if_pos hkey, lookup_of_blank htidy hkey]
    · have hsolid : Text.isBlankText key = false := by simpa using hkey
      rw [if_neg hkey, lookup_bindAll later hsolid, lookup_ofSettings s hsolid, lastBound?,
        lastBound?, lastBound?, List.reverse_append, List.find?_append, Option.map_or]

/-- Bound again in another spelling, a keystroke asks for what it was bound to last, and is no
longer shown for its first command. -/
theorem keymap_answers_last_binding_respelled :
    ((ofSettings ⟨"accel y", "accel u"⟩).bindAll [("Accel\u3000 Y ", .clearHistory)]).lookup
      "ACCEL y" = some .clearHistory ∧
    ((ofSettings ⟨"accel y", "accel u"⟩).bindAll
      [("Accel\u3000 Y ", .clearHistory)]).keystrokeFor? .acceptLatest = none := by
  obtain ⟨hlookup, -⟩ :=
    keymap_answers_last_binding ⟨"accel y", "accel u"⟩ [("Accel\u3000 Y ", .clearHistory)]
  rw [hlookup]
  decide +kernel

end CellReview.Review
