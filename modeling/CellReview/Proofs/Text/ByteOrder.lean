import CellReview.Text.Blank

/-!
# The order of texts by their bytes

Texts are compared character by character.  As the code of a greater character has a greater byte
where the two codes first differ, that is the order of the bytes too.

* `Text.bytes`, `Text.ByteLt` — the bytes of a text, and texts compared by them;
* `byteLt_of_lt` — the code of a greater character is greater, whatever follows it;
* `Text.byteLt_iff` — **texts have the order of their bytes**.
-/

namespace CellReview

/-- The bytes of a text, as numbers. -/
def Text.bytes (s : String) : List Nat :=
  s.toUTF8.data.toList.map UInt8.toNat

/-- Whether a text stands before another one in the order of their bytes. -/
def Text.ByteLt (s t : String) : Prop :=
  List.Lex (· < ·) (bytes s) (bytes t)

/-- The bytes of a character. -/
def codeBytes (c : Char) : List Nat :=
  (String.utf8EncodeChar c).map UInt8.toNat

theorem Text.bytes_eq_flatMap (s : String) : bytes s = s.toList.flatMap codeBytes := by
  obtain ⟨l, rfl⟩ : ∃ l, s = String.ofList l := ⟨s.toList, String.ofList_toList.symm⟩
  rw [bytes, String.toUTF8_eq_toByteArray, String.toByteArray_ofList, List.utf8Encode,
    List.data_toByteArray, String.toList_ofList, List.map_flatMap]
  rfl

theorem codeBytes_ne_nil (c : Char) : codeBytes c ≠ [] := by
  rw [codeBytes, ne_eq, List.map_eq_nil_iff]
  exact String.utf8EncodeChar_ne_nil

/-- The code of a greater character is greater, whatever follows it. -/
theorem byteLt_of_lt {c d : Char} (h : c < d) (s t : List Nat) :
    List.Lex (· < ·) (codeBytes c ++ s) (codeBytes d ++ t) := by
  have hcd : c.val.toNat < d.val.toNat := h
  have hlimit : d.val.toNat < 0x110000 := by
    rcases d.valid with h | ⟨-, h⟩
    · exact Nat.lt_trans h (by decide)
    · exact h
  simp only [codeBytes, String.utf8EncodeChar]
  generalize c.val.toNat = m at hcd ⊢
  generalize d.val.toNat = n at hcd hlimit ⊢
  -- in terms of the last digits of base 64 that the bytes carry
  have hthree : ∀ k, k / 4096 = k / 64 / 64 := by omega
  have hfour : ∀ k, k / 262144 = k / 64 / 64 / 64 := by omega
  have hbyte : ∀ k, (k % 64 + 128) % 256 = k % 64 + 128 := by omega
  repeat' split
  all_goals
    simp only [List.map_cons, List.map_nil, List.cons_append, List.nil_append,
      List.cons_lex_cons_iff, UInt8.toNat_ofNat', hthree, hfour, hbyte]
    omega

theorem lex_append_left_iff {l s t : List Nat} :
    List.Lex (· < ·) (l ++ s) (l ++ t) ↔ List.Lex (· < ·) s t := by
  induction l with
  | nil => exact Iff.rfl
  | cons a l ih =>
    rw [List.cons_append, List.cons_append, List.cons_lex_cons_iff, ih]
    exact ⟨fun h => h.elim (fun h => absurd h (Nat.lt_irrefl a)) And.right, fun h => .inr ⟨rfl, h⟩⟩

theorem lex_flatMap_iff {s t : List Char} :
    List.Lex (· < ·) (s.flatMap codeBytes) (t.flatMap codeBytes) ↔ List.Lex (· < ·) s t := by
  induction s generalizing t with
  | nil =>
    cases t with
    | nil => exact ⟨nofun, nofun⟩
    | cons d t =>
      obtain ⟨b, rest, hbytes⟩ := List.exists_cons_of_ne_nil (codeBytes_ne_nil d)
      rw [List.flatMap_cons, hbytes]
      exact ⟨fun _ => .nil, fun _ => .nil⟩
  | cons c s ih =>
    cases t with
    | nil => exact ⟨fun h => absurd h List.not_lex_nil, nofun⟩
    | cons d t =>
      rw [List.flatMap_cons, List.flatMap_cons, List.cons_lex_cons_iff]
      by_cases hcd : c < d
      · exact ⟨fun _ => .inl hcd, fun _ => byteLt_of_lt hcd _ _⟩
      by_cases hdc : d < c
      · -- the other way round the order is clear, and it is not both
        refine ⟨fun h => absurd (byteLt_of_lt hdc _ _) (List.lex_asymm Nat.lt_asymm h),
          fun h => ?_⟩
        rcases h with h | ⟨rfl, -⟩
        · exact absurd h hcd
        · exact absurd hdc hcd
      · obtain rfl : c = d := Char.ltTrichotomous.trichotomous c d hcd hdc
        rw [lex_append_left_iff, ih]
        exact ⟨fun h => .inr ⟨rfl, h⟩, fun h => h.elim (fun h => absurd h hcd) And.right⟩

/-- **Texts have the order of their bytes.** -/
theorem Text.byteLt_iff {s t : String} : ByteLt s t ↔ s < t := by
  rw [ByteLt, bytes_eq_flatMap, bytes_eq_flatMap, String.lt_iff]
  exact lex_flatMap_iff

end CellReview
