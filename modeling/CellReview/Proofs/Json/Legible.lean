import CellReview.Proofs.Json.Written
import CellReview.Proofs.Settings.Schema

/-!
# Numbers that read back inside a text

A literal is read as far as its digits go.  So a number whose text reads back on its own reads
back inside any text that goes on with a character that is none of a number.

* `Local` — a scanner that reads the same in front of a text that stops it;
* `local_literal?` — **literals are read locally**;
* `Visible`, `visible_numberChars` — no text of a number holds a blank;
* `Number.legible_of_ofText` — **a number that reads back on its own is legible**.
-/

namespace CellReview

open Scan

namespace Scan

/-! ## Literals are read locally -/

/-- What a scanner leaves is an end of its text; in front of a text that stops a number it reads
the same and leaves that text as well. -/
def Local {α : Type} (scan : List Char → Option (α × List Char)) : Prop :=
  ∀ cs a tail, scan cs = some (a, tail) →
    tail <:+ cs ∧ ∀ rest, Stops rest → scan (cs ++ rest) = some (a, tail ++ rest)

variable {cs rest : List Char}

theorem digits_append_stops (cs : List Char) (hrest : Stops rest) :
    digits (cs ++ rest) = ((digits cs).1, (digits cs).2 ++ rest) := by
  induction cs with
  | nil => exact digits_append (List.forall_mem_nil _) hrest
  | cons c cs ih =>
    by_cases hc : isDigit c = true
    · simp only [digits, Prod.mk.injEq] at ih
      simp [digits, hc, ih]
    · simp [digits, hc]

theorem digits_suffix {ds : List Nat} {tail : List Char} (h : digits cs = (ds, tail)) :
    tail <:+ cs := by
  have htail : cs.dropWhile isDigit = tail := congrArg Prod.snd h
  rw [← htail]
  exact List.dropWhile_suffix _

/-- Whether digits are those of a whole number is told by the digits alone. -/
theorem whole?_eq_some {ds : List Nat} {tail : List Char} (h : whole? cs = some (ds, tail)) :
    digits cs = (ds, tail) ∧
      ∀ cs' tail', digits cs' = (ds, tail') → whole? cs' = some (ds, tail') := by
  unfold whole? at h
  split at h
  · exact absurd h (by simp)
  · exact absurd h (by simp)
  · rename_i hnil hzero
    rw [Option.some.inj h] at hnil hzero
    refine ⟨Option.some.inj h, fun cs' tail' h' => ?_⟩
    rw [whole?, h']
    cases ds with
    | nil => exact absurd rfl (hnil tail)
    | cons d ds =>
      cases d with
      | zero =>
        cases ds with
        | nil => rfl
        | cons e ds => exact absurd rfl (hzero e ds tail)
      | succ d => rfl

theorem local_whole? : Local whole? := by
  intro cs ds tail h
  obtain ⟨hdigits, hwhole⟩ := whole?_eq_some h
  refine ⟨digits_suffix hdigits, fun rest hrest => hwhole _ _ ?_⟩
  rw [digits_append_stops cs hrest, hdigits]

theorem local_fraction? : Local fraction? := by
  intro cs ds tail h
  unfold fraction? at h
  split at h
  · rename_i inner
    cases hdigits : digits inner with
    | mk found left =>
      rw [hdigits] at h
      cases found with
      | nil => exact absurd h (by simp)
      | cons d found =>
        obtain ⟨rfl, rfl⟩ := Prod.mk.inj (Option.some.inj h)
        refine ⟨(digits_suffix hdigits).trans (List.suffix_cons _ _), fun rest hrest => ?_⟩
        rw [List.cons_append, fraction?, digits_append_stops inner hrest, hdigits]
  · rename_i hpoint
    obtain ⟨rfl, rfl⟩ := Prod.mk.inj (Option.some.inj h)
    refine ⟨List.suffix_rfl, fun rest hrest => ?_⟩
    cases cs with
    | nil => exact fraction?_of_stops hrest
    | cons c cs =>
      rw [List.cons_append, fraction?]
      intro inner heq
      exact hpoint cs (by rw [(List.cons.inj heq).1])

/-- The digits of an exponent with their sign. -/
def signedDigits (cs : List Char) : Option (Option (Bool × List Nat) × List Char) :=
  let (down, cs) := match cs with
    | '-' :: rest => (true, rest)
    | '+' :: rest => (false, rest)
    | cs => (false, cs)
  match digits cs with
  | ([], _) => none
  | (ds, rest) => some (some (down, ds), rest)

theorem exponent?_eq (cs : List Char) : exponent? cs =
    match cs with
    | 'e' :: rest => signedDigits rest
    | 'E' :: rest => signedDigits rest
    | cs => some (none, cs) := rfl

theorem local_signedDigits : Local signedDigits := by
  intro cs found tail h
  have hplain : ∀ (down : Bool) (inner : List Char), inner <:+ cs →
      (match digits inner with
        | ([], _) => none
        | (ds, rest) => some (some (down, ds), rest)) = some (found, tail) →
      tail <:+ cs ∧ ∀ rest, Stops rest →
        (match digits (inner ++ rest) with
          | ([], _) => none
          | (ds, rest) => some (some (down, ds), rest)) = some (found, tail ++ rest) := by
    intro down inner hinner h
    cases hdigits : digits inner with
    | mk ds left =>
      rw [hdigits] at h
      cases ds with
      | nil => exact absurd h (by simp)
      | cons d ds =>
        obtain ⟨rfl, rfl⟩ := Prod.mk.inj (Option.some.inj h)
        refine ⟨(digits_suffix hdigits).trans hinner, fun rest hrest => ?_⟩
        rw [digits_append_stops inner hrest, hdigits]
  cases cs with
  | nil => exact absurd h (by simp [signedDigits, digits])
  | cons c cs =>
    by_cases hminus : c = '-'
    · subst hminus
      exact hplain true cs (List.suffix_cons _ _) h
    by_cases hplus : c = '+'
    · subst hplus
      exact hplain false cs (List.suffix_cons _ _) h
    · have hunsigned : ∀ cs, signedDigits (c :: cs) =
          match digits (c :: cs) with
          | ([], _) => none
          | (ds, rest) => some (some (false, ds), rest) := by
        intro cs
        simp [signedDigits, hminus, hplus]
      rw [hunsigned] at h
      obtain ⟨hsuffix, happend⟩ := hplain false (c :: cs) List.suffix_rfl h
      refine ⟨hsuffix, fun rest hrest => ?_⟩
      rw [List.cons_append, hunsigned]
      exact happend rest hrest

theorem local_exponent? : Local exponent? := by
  intro cs found tail h
  rw [exponent?_eq] at h
  split at h
  · rename_i inner
    obtain ⟨hsuffix, happend⟩ := local_signedDigits inner found tail h
    exact ⟨hsuffix.trans (List.suffix_cons _ _), happend⟩
  · rename_i inner
    obtain ⟨hsuffix, happend⟩ := local_signedDigits inner found tail h
    exact ⟨hsuffix.trans (List.suffix_cons _ _), happend⟩
  · rename_i hlower hupper
    obtain ⟨rfl, rfl⟩ := Prod.mk.inj (Option.some.inj h)
    refine ⟨List.suffix_rfl, fun rest hrest => ?_⟩
    cases cs with
    | nil => exact exponent?_of_stops hrest
    | cons c cs =>
      rw [List.cons_append, exponent?_eq]
      split
      · rename_i heq
        exact absurd (by rw [(List.cons.inj heq).1]) (hlower cs)
      · rename_i heq
        exact absurd (by rw [(List.cons.inj heq).1]) (hupper cs)
      · rfl

/-- The parts of a literal behind its sign. -/
def unsigned? (negative : Bool) (cs : List Char) : Option (Literal × List Char) := do
  let (whole, cs) ← whole? cs
  let (fraction, cs) ← fraction? cs
  let (exponent, cs) ← exponent? cs
  some (⟨negative, whole, fraction, exponent⟩, cs)

theorem local_unsigned? (negative : Bool) : Local (unsigned? negative) := by
  intro cs l tail h
  simp only [unsigned?, Option.bind_eq_bind, Option.bind_eq_some_iff, Prod.exists] at h
  obtain ⟨whole, first, hwhole, fraction, second, hfraction, exponent, third, hexponent, hl⟩ := h
  obtain ⟨rfl, rfl⟩ := Prod.mk.inj (Option.some.inj hl)
  obtain ⟨hfirst, hwhole⟩ := local_whole? _ _ _ hwhole
  obtain ⟨hsecond, hfraction⟩ := local_fraction? _ _ _ hfraction
  obtain ⟨hthird, hexponent⟩ := local_exponent? _ _ _ hexponent
  refine ⟨(hthird.trans hsecond).trans hfirst, fun rest hrest => ?_⟩
  simp [unsigned?, hwhole rest hrest, hfraction rest hrest, hexponent rest hrest]

/-- **Literals are read locally.** -/
theorem local_literal? : Local literal? := by
  intro cs l tail h
  cases cs with
  | nil => exact absurd h (by simp [literal?, whole?, digits])
  | cons c cs =>
    by_cases hminus : c = '-'
    · subst hminus
      obtain ⟨hsuffix, happend⟩ := local_unsigned? true cs l tail h
      exact ⟨hsuffix.trans (List.suffix_cons _ _), happend⟩
    · have hunsigned : ∀ cs, literal? (c :: cs) = unsigned? false (c :: cs) := by
        intro cs
        simp [literal?, unsigned?, hminus]
      rw [hunsigned] at h
      obtain ⟨hsuffix, happend⟩ := local_unsigned? false (c :: cs) l tail h
      refine ⟨hsuffix, fun rest hrest => ?_⟩
      rw [List.cons_append, hunsigned]
      exact happend rest hrest

end Scan

/-- A number is scanned where a literal stands. -/
theorem Doc.literal?_of_scan {fuel : Nat} {cs rest : List Char} {found : Option Number}
    (h : Doc.scan (fuel + 1) cs = (.number found, rest)) :
    ∃ l, literal? (skip cs) = some (l, rest) ∧ numberOf? l = found := by
  have hnamed : ∀ (d : Doc) (left : Option (List Char)), d ≠ .number found →
      scan.named d left ≠ (.number found, rest) := by
    intro d left hd heq
    cases left with
    | none => exact absurd (congrArg Prod.fst heq) (by simp [scan.named])
    | some left => exact hd (congrArg Prod.fst heq)
  rw [Doc.scan] at h
  split at h
  · split at h
    · exact absurd (congrArg Prod.fst h) (by simp)
    · exact absurd (congrArg Prod.fst h) (by simp)
  · split at h
    · exact absurd (congrArg Prod.fst h) (by simp)
    · exact absurd (congrArg Prod.fst h) (by simp)
    · exact absurd (congrArg Prod.fst h) (by simp)
  · split at h
    · exact absurd (congrArg Prod.fst h) (by simp)
    · exact absurd (congrArg Prod.fst h) (by simp)
  · exact absurd h (hnamed _ _ (by simp))
  · exact absurd h (hnamed _ _ (by simp))
  · exact absurd h (hnamed _ _ (by simp))
  · split at h
    · rename_i l left hliteral
      obtain ⟨hfound, rfl⟩ := Prod.mk.inj h
      exact ⟨l, hliteral, Doc.number.inj hfound⟩
    · exact absurd (congrArg Prod.fst h) (by simp)

/-! ## The texts of numbers -/

/-- Whether no character of a text is a blank or a control character. -/
def Visible (cs : List Char) : Prop :=
  ∀ c ∈ cs, 32 < c.toNat

instance (cs : List Char) : Decidable (Visible cs) :=
  decidable_of_iff (cs.all (32 < ·.toNat) = true) (by simp [Visible])

namespace Visible

theorem append {cs ds : List Char} (hcs : Visible cs) (hds : Visible ds) : Visible (cs ++ ds) :=
  List.forall_mem_append.2 ⟨hcs, hds⟩

theorem cons {c : Char} {cs : List Char} (hc : 32 < c.toNat) (hcs : Visible cs) :
    Visible (c :: cs) :=
  List.forall_mem_cons.2 ⟨hc, hcs⟩

theorem skip_eq {cs : List Char} (h : Visible cs) : Scan.skip cs = cs := by
  cases cs with
  | nil => rfl
  | cons c cs =>
    have hc : 32 < c.toNat := h c List.mem_cons_self
    rw [Scan.skip, if_neg]
    rintro (rfl | rfl | rfl | rfl) <;> exact absurd hc (by decide)

theorem eq_nil_of_skip {cs : List Char} (h : Visible cs) (hskip : (Scan.skip cs).isEmpty = true) :
    cs = [] := by
  rwa [h.skip_eq, List.isEmpty_iff] at hskip

end Visible

theorem visible_decimal (n : Nat) : Visible (decimal n) := by
  intro c hc
  have hdigit := all_isDigit_decimal n c hc
  rw [isDigit, Bool.and_eq_true, decide_eq_true_eq] at hdigit
  have hzero : '0'.toNat ≤ c.toNat := hdigit.1
  exact lt_of_lt_of_le (by decide) hzero

theorem visible_zeros (n : Nat) : Visible (List.replicate n '0') := by
  intro c hc
  rw [List.eq_of_mem_replicate hc]
  decide

theorem visible_layout (style : FloatStyle) {cs : List Char} (h : Visible cs) (e : Int) :
    Visible (style.layout cs e) := by
  have htake : ∀ n, Visible (cs.take n) := fun n c hc => h c (List.mem_of_mem_take hc)
  have hdrop : ∀ n, Visible (cs.drop n) := fun n c hc => h c (List.mem_of_mem_drop hc)
  unfold FloatStyle.layout
  split
  · split
    · exact (Visible.cons (by decide) (.cons (by decide) (visible_zeros _))).append h
    · refine ((htake _).append (visible_zeros _)).append (.cons (by decide) ?_)
      split
      · exact .cons (by decide) fun c hc => absurd hc List.not_mem_nil
      · exact hdrop _
  · refine Visible.append ?_ (.cons (by decide) (.cons ?_ (visible_decimal _)))
    · cases cs with
      | nil => exact fun c hc => absurd hc List.not_mem_nil
      | cons c cs =>
        obtain ⟨hc, hcs⟩ := List.forall_mem_cons.1 h
        dsimp only
        split
        · exact .cons hc fun c hc => absurd hc List.not_mem_nil
        · exact .cons hc (.cons (by decide) hcs)
    · split <;> decide

theorem visible_render (style : FloatStyle) {f : Format} (x : Binary f) :
    Visible ((style.render x).getD "null").toList := by
  cases x with
  | finite s m q =>
    simp only [FloatStyle.render, Option.getD_some, String.toList_ofList]
    have hbody : Visible (if m = 0 then ['0', '.', '0']
        else style.layout (decimal (Binary.shortest f m q).1)
          ((Binary.shortest f m q).2 + (decimal (Binary.shortest f m q).1).length - 1)) := by
      split
      · decide
      · exact visible_layout style (visible_decimal _) _
    split
    · exact .cons (by decide) hbody
    · exact hbody
  | _ =>
    have hnull : Visible "null".toList := by decide
    exact hnull

theorem visible_numberChars (n : Number) : Visible (Json.numberChars n) := by
  cases n with
  | int n =>
    rw [Json.numberChars, intText, natText]
    split
    · rw [String.toList_append]
      refine Visible.append (by decide) ?_
      rw [String.toList_ofList]
      exact visible_decimal _
    · rw [String.toList_ofList]
      exact visible_decimal _
  | double x => exact visible_render _ x
  | single x => exact visible_render _ x

theorem Reader.single_eq_ok {r : Reading} {d : Doc} {x : Binary .single}
    (h : Reader.single r d = .ok x) : ∃ n, d = .number (some n) ∧ n.toSingle = x := by
  unfold Reader.single at h
  split at h
  · exact ⟨_, rfl, Except.ok.inj h⟩
  · exact ⟨_, rfl, Except.ok.inj h⟩
  · exact ⟨_, rfl, Except.ok.inj h⟩
  · exact absurd h (by simp)

/-- **A number that reads back on its own is legible**, and read as the same in any text. -/
theorem Number.legible_of_ofText {n : Number} {x : Binary .single}
    (h : Reader.ofText Reader.single (Json.number n).compact = .ok x) :
    n.Legible ∧ ∃ m, n.reread = some m ∧ m.toSingle = x := by
  have hvisible := visible_numberChars n
  rcases hscan : Doc.scan (Doc.fuel (Json.numberChars n)) (Json.numberChars n) with ⟨d, rest⟩
  have hread : ∃ m, d = .number (some m) ∧ m.toSingle = x ∧ (skip rest).isEmpty = true := by
    simp only [Reader.ofText, Doc.ofText, Json.compact, Json.chars, String.toList_ofList, hscan]
      at h
    obtain ⟨y, hsingle, h⟩ := bind_eq_ok_iff.1 h
    split at h
    · obtain rfl := Except.ok.inj h
      obtain ⟨m, rfl, hm⟩ := Reader.single_eq_ok hsingle
      exact ⟨m, rfl, hm, ‹_›⟩
    · exact absurd h (by simp)
  obtain ⟨m, rfl, hm, hrest⟩ := hread
  obtain ⟨l, hliteral, hnumber⟩ := Doc.literal?_of_scan hscan
  rw [hvisible.skip_eq] at hliteral
  obtain ⟨hsuffix, hlocal⟩ := local_literal? _ _ _ hliteral
  have hleft : Visible rest := fun c hc => hvisible c (hsuffix.subset hc)
  obtain rfl : rest = [] := hleft.eq_nil_of_skip hrest
  refine ⟨⟨l, hlocal⟩, m, ?_, hm⟩
  rw [Number.reread, hliteral, Option.bind_some, hnumber]

end CellReview
