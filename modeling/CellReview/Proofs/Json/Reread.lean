import CellReview.Json.Tagged
import CellReview.Proofs.Json.Record
import CellReview.Proofs.Json.Written

/-!
# Typed values read back from their text

The text of a value whose numbers are counts is read as the tree of that very value.  So a typed
value reads back from its text as soon as its reader takes the tree of the value that it is
written as, with its members in their order.

* `Json.Counted`, `Json.Counted.written_eq_doc` — numbers of 64 bits, and the tree of their text;
* `Rereads` — a reader takes the tree of a value for what was written;
* `rereads_enum`, `rereads_list`, `Rereads.refine`, `Rereads.bind` — single values and lists;
* `Stores`, `Stores.rereads_record` — records, member by member;
* `rereads_tagged`, `rereads_beside`, `rereads_beside_bare` — values of several shapes;
* `Rereads.ofText_compact` — **a typed value reads back from its text**.
-/

namespace CellReview

open Scan
open Json (memberDocs)

/-! ## Counts -/

theorem Literal.gather_of_lt {ds : List Nat} {start : Nat}
    (h : ds.foldl (fun n d => 10 * n + d) start < wordLimit) :
    gather start ds = (ds.foldl (fun n d => 10 * n + d) start, []) := by
  induction ds generalizing start with
  | nil => rfl
  | cons d ds ih =>
    have hgrows : ∀ (ds : List Nat) (n : Nat), n ≤ ds.foldl (fun n d => 10 * n + d) n := by
      intro ds
      induction ds with
      | nil => exact fun n => le_refl n
      | cons d ds ih => exact fun n => le_trans (by omega) (ih (10 * n + d))
    rw [gather, if_pos (lt_of_le_of_lt (hgrows ds _) h), ih h]
    rfl

/-- Whether a number is a count of 64 bits. -/
def Number.IsCount (n : Number) : Prop :=
  ∃ k : Nat, k < Literal.wordLimit ∧ n = .int k

theorem Number.IsCount.isInt {n : Number} (h : n.IsCount) : n.IsInt :=
  h.elim fun k hk => ⟨k, hk.2⟩

/-- The text of a count is read as that count. -/
theorem Number.IsCount.reread {n : Number} (h : n.IsCount) : n.reread = some n := by
  obtain ⟨k, hk, rfl⟩ := h
  have hliteral := literal?_intText (k : Int) stops_nil
  rw [List.append_nil] at hliteral
  have hdigits : Literal.gather 0 ((decimal (k : Int).natAbs).map digitValue) = (k, []) := by
    have hvalue : ((decimal k).map digitValue).foldl (fun n d => 10 * n + d) 0 = k :=
      ofDigits_decimal k
    rw [Int.natAbs_natCast, Literal.gather_of_lt (hvalue.symm ▸ hk), hvalue]
  have hsign : decide ((k : Int) < 0) = false := decide_eq_false (by omega)
  rw [Number.reread, Json.numberChars, hliteral, hsign, Option.bind_some, numberOf?,
    Literal.value?]
  simp only [hdigits]
  rfl

namespace Json

/-- Whether all numbers of a value are counts of 64 bits. -/
def Counted (v : Json) : Prop :=
  v.Each Number.IsCount

theorem Counted.whole {v : Json} (h : v.Counted) : v.Whole :=
  h.mono fun _ hn => hn.isInt

mutual

/-- The text of a counted value is read as the tree of the value. -/
theorem Counted.written_eq_doc : ∀ {v : Json}, v.Counted → v.written = v.doc
  | .null, _ => rfl
  | .bool _, _ => rfl
  | .number n, .number h => by rw [written, h.reread, doc]
  | .string _, _ => rfl
  | .array items, .array h => by rw [written, Counted.writtenItems_eq h, doc]
  | .object members, .object h => by rw [written, Counted.writtenMembers_eq h, doc]

theorem Counted.writtenItems_eq :
    ∀ {items : List Json}, (∀ v ∈ items, v.Counted) → writtenItems items = itemDocs items
  | [], _ => rfl
  | v :: rest, h => by
    have ⟨hv, hrest⟩ := List.forall_mem_cons.1 h
    rw [writtenItems, Counted.written_eq_doc hv, Counted.writtenItems_eq hrest, itemDocs]

theorem Counted.writtenMembers_eq :
    ∀ {members : List (String × Json)}, (∀ m ∈ members, m.2.Counted) →
      writtenMembers members = memberDocs members
  | [], _ => rfl
  | (k, v) :: rest, h => by
    have ⟨hv, hrest⟩ := List.forall_mem_cons.1 h
    rw [writtenMembers, Counted.written_eq_doc hv, Counted.writtenMembers_eq hrest, memberDocs]

end

end Json

/-! ## Readers of written values -/

/-- A reader takes a value of counts for what was written, wherever `nest` more levels are
allowed. -/
structure Rereads {α : Type} (nest : Nat) (read : Reader α) (v : Json) (x : α) : Prop where
  counted : v.Counted
  takes : ∀ r : Reading, nest < r.depth → read r v.doc = .ok x

theorem Reading.enter_of_lt {r : Reading} {nest : Nat} (h : nest + 1 < r.depth) :
    ∃ inner, r.enter = .ok inner ∧ nest < inner.depth := by
  rw [enter]
  split
  · exact ⟨r, rfl, by omega⟩
  · rw [if_neg (by omega)]
    exact ⟨_, rfl, by show nest < r.depth - 1; omega⟩

section Single

variable {α β : Type} {nest : Nat} {read : Reader α} {v : Json} {x : α}

theorem Rereads.mono (h : Rereads nest read v x) {more : Nat} (hmore : nest ≤ more) :
    Rereads more read v x :=
  ⟨h.counted, fun r hr => h.takes r (lt_of_le_of_lt hmore hr)⟩

theorem rereads_string (nest : Nat) (s : String) : Rereads nest Reader.string (.string s) s :=
  ⟨.string s, fun _ _ => rfl⟩

theorem rereads_bool (nest : Nat) (b : Bool) : Rereads nest Reader.bool (.bool b) b :=
  ⟨.bool b, fun _ _ => rfl⟩

theorem rereads_nat (nest : Nat) {limit n : Nat} (h : n < limit)
    (hlimit : limit ≤ Literal.wordLimit) : Rereads nest (Reader.natBelow limit) (.ofNat n) n :=
  ⟨.number ⟨n, lt_of_lt_of_le h hlimit, rfl⟩,
    fun _ _ => if_pos ⟨Int.natCast_nonneg n, Int.ofNat_lt.2 h⟩⟩

theorem rereads_enum (nest : Nat) {ofName : String → Option α} {name : String}
    (h : ofName name = some x) : Rereads nest (Reader.enum ofName) (.string name) x :=
  ⟨.string name, fun _ _ => by simp [Json.doc, Reader.enum, h]⟩

theorem rereads_none (nest : Nat) (read : Reader α) :
    Rereads nest (Reader.option read) .null none :=
  ⟨.null, fun _ _ => rfl⟩

theorem Rereads.some (h : Rereads nest read v x) (hv : v ≠ .null) :
    Rereads nest (Reader.option read) v (some x) := by
  refine ⟨h.counted, fun r hr => ?_⟩
  have hread := h.takes r hr
  cases v with
  | null => exact absurd rfl hv
  | _ => exact congrArg (Except.map Option.some) hread

theorem Rereads.refine (h : Rereads nest read v x) {f : α → Option β} {y : β}
    (hf : f x = Option.some y) : Rereads nest (Reader.refine f read) v y :=
  ⟨h.counted, fun r hr => by simp [Reader.refine, h.takes r hr, hf, bind, Except.bind]⟩

theorem Rereads.bind (h : Rereads nest read v x) {f : α → Except Fault β} {y : β}
    (hf : f x = .ok y) : Rereads nest (fun r d => read r d >>= f) v y := by
  refine ⟨h.counted, fun r hr => ?_⟩
  show (read r v.doc).bind f = _
  rw [h.takes r hr]
  exact hf

theorem items_itemDocs {f : α → Json} {xs : List α} {r : Reading}
    (h : ∀ x ∈ xs, read r (f x).doc = .ok x) :
    Reader.items read r (Json.itemDocs (xs.map f)) = .ok xs := by
  induction xs with
  | nil => rfl
  | cons x xs ih =>
    obtain ⟨hx, hxs⟩ := List.forall_mem_cons.1 h
    simp [Json.itemDocs, Reader.items, hx, ih hxs, Bind.bind, Except.bind]

theorem rereads_list {f : α → Json} {xs : List α} (h : ∀ x ∈ xs, Rereads nest read (f x) x) :
    Rereads (nest + 1) (Reader.list read) (.array (xs.map f)) xs := by
  refine ⟨.array (List.forall_mem_map.2 fun x hx => (h x hx).counted), fun r hr => ?_⟩
  obtain ⟨inner, henter, hinner⟩ := r.enter_of_lt hr
  have hitems := items_itemDocs fun x hx => (h x hx).takes inner hinner
  simp [Json.doc, Reader.list, henter, hitems, Bind.bind, Except.bind]

end Single

/-! ## Records -/

section Record

variable {σ α : Type} {fields : List (Field σ)} {nest : Nat} {members more : List (String × Json)}
  {s t u : σ}

/-- Members that are stored one after the other, each in the field of its name. -/
inductive Stores (fields : List (Field σ)) (nest : Nat) : List (String × Json) → σ → σ → Prop where
  | nil (s : σ) : Stores fields nest [] s s
  | cons {key : String} {v : Json} {rest : List (String × Json)} {s t u : σ} {f : Field σ}
      (hfind : (fields.find? fun f => f.name == key) = some f)
      (hstore : Rereads nest (fun r d => f.store r d s) v t) (h : Stores fields nest rest t u) :
      Stores fields nest ((key, v) :: rest) s u

theorem Rereads.store {read : Reader α} {v : Json} {x : α} (h : Rereads nest read v x)
    {name : String} {presence : Presence} {put : α → σ → σ} {s : σ} :
    Rereads nest (fun r d => (Field.of name presence read put).store r d s) v (put x s) :=
  ⟨h.counted, fun r hr => by simp [Field.of, h.takes r hr, Except.map]⟩

namespace Stores

theorem append (h : Stores fields nest members s t) (hmore : Stores fields nest more t u) :
    Stores fields nest (members ++ more) s u := by
  induction h with
  | nil s => exact hmore
  | cons hfind hstore h ih => exact .cons hfind hstore (ih hmore)

theorem counted (h : Stores fields nest members s t) : ∀ m ∈ members, m.2.Counted := by
  induction h with
  | nil s => exact fun _ hm => absurd hm List.not_mem_nil
  | cons hfind hstore h ih => exact List.forall_mem_cons.2 ⟨hstore.counted, ih⟩

/-- Members of different names are all stored. -/
theorem fillEntries (h : Stores fields nest members s t) {r : Reading} (hr : nest < r.depth)
    {seen : List String} (hnodup : (members.map Prod.fst).Nodup)
    (hseen : ∀ name ∈ members.map Prod.fst, name ∉ seen) :
    Reader.fillEntries fields r (memberDocs members) seen s =
      .ok ((members.map Prod.fst).reverse ++ seen, t) := by
  induction h generalizing seen with
  | nil s => rfl
  | @cons key v rest s t u f hfind hstore h ih =>
    obtain ⟨hnot, hrest⟩ := List.nodup_cons.1 hnodup
    obtain ⟨hfresh, hseen⟩ := List.forall_mem_cons.1 hseen
    have hlater := Reader.not_seen_cons hnot hseen
    have hread := hstore.takes r hr
    rw [Reader.fillEntries_known hfind hfresh, hread]
    simp [ih hrest hlater, Except.bind]

/-- The names of the fields that a record requires. -/
def required (fields : List (Field σ)) : List String :=
  (fields.filter fun f => f.presence = .required).map Field.name

/-- A record reads back from its members if none that it requires is missing. -/
theorem rereads_named (h : Stores fields nest members s t) (names : List String)
    (hnames : members.map Prod.fst = names) (hnodup : names.Nodup)
    (hrequired : required fields ⊆ names) :
    Rereads (nest + 1) (Reader.named fields s) (.object members) t := by
  subst hnames
  refine ⟨.object h.counted, fun r hr => ?_⟩
  obtain ⟨inner, henter, hinner⟩ := r.enter_of_lt hr
  have hfill := h.fillEntries hinner hnodup fun _ _ => List.not_mem_nil
  have hall : (fields.all fun f => f.presence != .required ||
      ((members.map Prod.fst).reverse ++ []).contains f.name) = true := by
    rw [List.all_eq_true]
    intro f hf
    by_cases hpresence : f.presence = .required
    · have hname : f.name ∈ members.map Prod.fst :=
        hrequired (List.mem_map_of_mem (List.mem_filter.2 ⟨hf, decide_eq_true hpresence⟩))
      simpa [hpresence] using hname
    · simp [hpresence]
  simp only [Json.doc, Reader.named, henter, hfill, hall, Bind.bind, Except.bind]
  rfl

theorem rereads_record (h : Stores fields nest members s t) (names : List String)
    (hnames : members.map Prod.fst = names) (hnodup : names.Nodup)
    (hrequired : required fields ⊆ names) :
    Rereads (nest + 1) (Reader.record fields s) (.object members) t :=
  have hread := h.rereads_named names hnames hnodup hrequired
  ⟨hread.counted, hread.takes⟩

end Stores

end Record

/-! ## Several shapes -/

section Tagged

variable {α κ : Type} {tag content name : String} {ofName : String → Option κ}
  {body : κ → Reader α} {bare : κ → Option α} {nest : Nat} {k : κ} {x : α}

/-- Text members are kept until the tag is known. -/
theorem takeTag_texts {r : Reading} {members : List (String × Json)} {found : Option κ}
    (h : ∀ m ∈ members, m.1 ≠ tag ∧ ∃ s, m.2 = .string s) :
    Reader.takeTag tag ofName r (memberDocs members) found =
      .ok (found, memberDocs members) := by
  induction members generalizing found with
  | nil => rfl
  | cons m members ih =>
    obtain ⟨key, v⟩ := m
    obtain ⟨⟨hkey, s, rfl⟩, hmembers⟩ := List.forall_mem_cons.1 h
    simp [memberDocs, Reader.takeTag, hkey, Json.doc, Doc.value?, ih hmembers, Bind.bind,
      Except.bind]

/-- A value with its tag in front of its other members, which are texts. -/
theorem rereads_tagged {members : List (String × Json)} (hname : ofName name = some k)
    (htexts : ∀ m ∈ members, m.1 ≠ tag ∧ ∃ s, m.2 = .string s)
    (h : Rereads nest (body k) (.object members) x) :
    Rereads (nest + 1) (Reader.tagged tag ofName body)
      (.object ((tag, .string name) :: members)) x := by
  cases h with
  | mk hcounted htakes =>
    cases hcounted with
    | object hmembers =>
      refine ⟨.object (List.forall_mem_cons.2 ⟨.string name, hmembers⟩), fun r hr => ?_⟩
      obtain ⟨inner, henter, hinner⟩ := r.enter_of_lt hr
      have hbody := htakes inner.ofWhole hinner
      rw [Json.doc] at hbody
      simp [Json.doc, memberDocs, Reader.tagged, henter, Reader.takeTag, Reader.tagName,
        Reader.refine, Reader.string, hname, takeTag_texts htexts, hbody, Bind.bind, Except.bind]

/-- A value with its tag in front of its content. -/
theorem rereads_beside {v : Json} (hne : content ≠ tag) (hname : ofName name = some k)
    (h : Rereads nest (body k) v x) :
    Rereads (nest + 1) (Reader.beside tag content ofName bare body)
      (.object [(tag, .string name), (content, v)]) x := by
  refine ⟨.object (List.forall_mem_cons.2 ⟨.string name,
    List.forall_mem_singleton.2 h.counted⟩), fun r hr => ?_⟩
  obtain ⟨inner, henter, hinner⟩ := r.enter_of_lt hr
  simp [Json.doc, memberDocs, Reader.beside, henter, Reader.nextOf, hne, Reader.enum, hname,
    h.takes inner hinner, Reader.noneLeft, Bind.bind, Except.bind]

/-- A value whose tag says all about it. -/
theorem rereads_beside_bare (hname : ofName name = some k) (hbare : bare k = some x) :
    Rereads 1 (Reader.beside tag content ofName bare body) (.object [(tag, .string name)]) x := by
  refine ⟨.object (List.forall_mem_singleton.2 (.string name)), fun r hr => ?_⟩
  obtain ⟨inner, henter, -⟩ := r.enter_of_lt (show 0 + 1 < r.depth from hr)
  simp [Json.doc, memberDocs, Reader.beside, henter, Reader.nextOf, Reader.enum, hname, hbare,
    Bind.bind, Except.bind]

end Tagged

/-! ## Texts -/

/-- **A typed value reads back from its text.** -/
theorem Rereads.ofText_compact {α : Type} {nest : Nat} {read : Reader α} {v : Json} {x : α}
    (h : Rereads nest read v x) (hnest : nest < Doc.nesting) :
    Reader.ofText read v.compact = .ok x := by
  have htree := Doc.ofText_compact h.counted.whole.legible
  rw [h.counted.written_eq_doc] at htree
  have hread := h.takes ⟨.text, Doc.nesting⟩ hnest
  simp [Reader.ofText, htree, hread, Bind.bind, Except.bind]

end CellReview
