import CellReview.Digest.Sha256

/-!
# Fingerprints tell hashes apart

A fingerprint spells out every byte of the hash with two hexadecimal digits, so two texts have
the same fingerprint only if they have the same hash.

* `hexByte_inj` — two bytes are spelt differently;
* `digest_eq_of_fingerprint_eq` — **the same fingerprint, the same hash**.
-/

namespace CellReview.Digest

theorem digitChar_inj : ∀ i < 16, ∀ j < 16, Nat.digitChar i = Nat.digitChar j → i = j := by
  decide

theorem hexByte_inj {b c : UInt8} (h : hexByte b = hexByte c) : b = c := by
  have hb := b.toNat_lt
  have hc := c.toNat_lt
  simp only [hexByte, List.cons.injEq, and_true] at h
  have hhigh := digitChar_inj _ (by omega) _ (by omega) h.1
  have hlow := digitChar_inj _ (by omega) _ (by omega) h.2
  rw [← UInt8.toNat_inj]
  omega

theorem flatMap_hexByte_inj {bs cs : List UInt8} (h : bs.flatMap hexByte = cs.flatMap hexByte) :
    bs = cs := by
  induction bs generalizing cs with
  | nil =>
    cases cs with
    | nil => rfl
    | cons c cs => simp [hexByte] at h
  | cons b bs ih =>
    cases cs with
    | nil => simp [hexByte] at h
    | cons c cs =>
      rw [List.flatMap_cons, List.flatMap_cons] at h
      obtain ⟨hfirst, hrest⟩ := List.append_inj h rfl
      rw [hexByte_inj hfirst, ih hrest]

/-- The same fingerprint, the same hash. -/
theorem digest_eq_of_fingerprint_eq {a b : String} (h : fingerprint a = fingerprint b) :
    digest a.toUTF8 = digest b.toUTF8 :=
  flatMap_hexByte_inj (String.ofList_injective h)

end CellReview.Digest
