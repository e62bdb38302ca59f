import CellReview.Chat.Fence
import CellReview.Proofs.Text.Line
import Mathlib.Data.List.Flatten
import Mathlib.Data.List.TakeWhile

/-!
# The code of a reply, character for character

A fence line is three backticks with nothing but blanks of their line before them.  A reply
offers a code exactly if it has a fence line, and what stands between two fence lines comes
out as it was put in: the line ending in front of the closing fence belongs to the fence, and
nothing else is lost.

* `HasFence` — three backticks behind blanks, told without cutting the text into lines;
* `hasFence_iff` — **that is the same as a piece which is a fence line**;
* `HasFence.append_ending` — a line ending makes no fence line;
* `codeBlockChars_open` — what follows an opening fence line, up to the next fence line;
* `codeBlock_verbatim` — **when a code is found, and which one**.
-/

namespace CellReview.Chat

/-! ## Fence lines -/

/-- Three backticks stand in the text with nothing but blanks before them on their line. -/
def HasFence (s : List Char) : Prop :=
  ∃ before blanks after, s = before ++ (blanks ++ (fence ++ after)) ∧ Chars.Closed before ∧
    ∀ c ∈ blanks, isBlank c = true ∧ c ≠ '\n'

theorem isFence_iff {line : List Char} :
    isFence line = true ↔
      ∃ blanks after, line = blanks ++ (fence ++ after) ∧ ∀ c ∈ blanks, isBlank c = true := by
  rw [isFence, List.isPrefixOf_iff_prefix]
  constructor
  · rintro ⟨after, hafter⟩
    refine ⟨line.takeWhile isBlank, after, ?_, fun c hc => List.mem_takeWhile_imp hc⟩
    rw [hafter, Chars.trimStart, List.takeWhile_append_dropWhile]
  · rintro ⟨blanks, after, rfl, hblank⟩
    refine ⟨after, ?_⟩
    rw [Chars.trimStart, List.dropWhile_append_of_pos hblank]
    rfl

theorem length_of_isFence {line : List Char} (h : isFence line = true) : 3 ≤ line.length := by
  obtain ⟨blanks, after, rfl, -⟩ := isFence_iff.1 h
  simp [fence]
  omega

/-- The blanks in front of a fence are in the line of the fence. -/
theorem not_mem_blanks_of_piece {blanks after : List Char}
    (h : Chars.Piece (blanks ++ (fence ++ after))) : '\n' ∉ blanks := by
  intro hmem
  rcases h with h | ⟨q, heq, hq⟩
  · exact h (List.mem_append_left _ hmem)
  · rcases List.append_eq_append_iff.1 heq with ⟨rest, rfl, -⟩ | ⟨rest, rfl, hrest⟩
    · exact hq (List.mem_append_left _ hmem)
    · have := congrArg List.length hrest
      simp [fence] at this
      omega

/-- A text has a fence exactly if one of its pieces is a fence line. -/
theorem hasFence_iff {s : List Char} : HasFence s ↔ ∃ line ∈ Chars.pieces s, isFence line = true := by
  constructor
  · rintro ⟨before, blanks, after, rfl, hbefore, hblanks⟩
    have hline : '\n' ∉ blanks ++ fence := by
      intro hmem
      rcases List.mem_append.1 hmem with hmem | hmem
      · exact (hblanks '\n' hmem).2 rfl
      · exact absurd hmem (by decide)
    obtain ⟨first, rest, heq⟩ :=
      Chars.exists_pieces_eq_cons (l := blanks ++ fence) (by simp [fence]) hline after
    refine ⟨blanks ++ fence ++ first, ?_, isFence_iff.2 ⟨blanks, first, ?_, fun c hc =>
      (hblanks c hc).1⟩⟩
    · rw [Chars.pieces_append hbefore, ← List.append_assoc blanks, heq]
      exact List.mem_append_right _ List.mem_cons_self
    · rw [List.append_assoc]
  · rintro ⟨line, hline, hfence⟩
    obtain ⟨before, after, rfl, hbefore⟩ := Chars.exists_closed_of_mem_pieces hline
    obtain ⟨blanks, rest, rfl, hblanks⟩ := isFence_iff.1 hfence
    refine ⟨before, blanks, rest ++ after, by simp, hbefore, fun c hc => ⟨hblanks c hc, ?_⟩⟩
    rintro rfl
    exact not_mem_blanks_of_piece (Chars.piece_of_mem_pieces hline) hc

theorem isFence_of_not_hasFence {s line : List Char} (h : ¬ HasFence s)
    (hline : line ∈ Chars.pieces s) : isFence line = false := by
  rw [Bool.eq_false_iff]
  exact fun hfence => h (hasFence_iff.2 ⟨line, hline, hfence⟩)

theorem not_hasFence_of_not_mem {s : List Char} (h : '\x60' ∉ s) : ¬ HasFence s := by
  rintro ⟨before, blanks, after, rfl, -, -⟩
  exact h (by simp [fence])

instance (s : List Char) : Decidable (HasFence s) :=
  decidable_of_iff _ hasFence_iff.symm

/-- A line ending behind a text makes no fence line of its last line. -/
theorem HasFence.append_ending {s ending : List Char} (hending : '\x60' ∉ ending) :
    HasFence (s ++ ending) ↔ HasFence s := by
  constructor
  · rintro ⟨before, blanks, after, heq, hbefore, hblanks⟩
    have heq : s ++ ending = (before ++ (blanks ++ fence)) ++ after := by simpa using heq
    rcases List.append_eq_append_iff.1 heq with ⟨rest, hs, hrest⟩ | ⟨rest, hs, hrest⟩
    · rcases List.eq_nil_or_concat rest with rfl | ⟨front, last, rfl⟩
      · exact ⟨before, blanks, [], by simpa using hs.symm, hbefore, hblanks⟩
      · -- the last backtick of the fence would stand in the ending
        have hlast : '\x60' = last := by
          simpa [fence, List.getLast?_append] using congrArg List.getLast? hs
        exact absurd (by simp [hrest, hlast.symm]) hending
    · exact ⟨before, blanks, rest, by simpa using hs, hbefore, hblanks⟩
  · rintro ⟨before, blanks, after, rfl, hbefore, hblanks⟩
    exact ⟨before, blanks, after ++ ending, by simp, hbefore, hblanks⟩

/-! ## Between two fence lines -/

theorem blockLines_append {plain rest : List (List Char)} {line : List Char}
    (hplain : ∀ l ∈ plain, isFence l = false) (hopen : isFence line = true) :
    blockLines (plain ++ line :: rest) = some (rest.takeWhile fun l => !isFence l) := by
  have hdrop : (plain ++ line :: rest).dropWhile (fun l => !isFence l) = line :: rest := by
    rw [List.dropWhile_append_of_pos (by simpa using hplain), List.dropWhile_cons]
    simp [hopen]
  rw [blockLines, hdrop]

/-- The code that begins behind an opening fence line ends before the next fence line. -/
theorem codeBlockChars_open {before : List Char} (hclosed : Chars.Closed before)
    (hplain : ¬ HasFence before) (info : List Char) (hinfo : '\n' ∉ info) (s : List Char) :
    codeBlockChars (before ++ (fence ++ (info ++ '\n' :: s))) =
      some (Chars.chomp ((Chars.pieces s).takeWhile fun l => !isFence l).flatten) := by
  have hline : '\n' ∉ fence ++ info := by
    simp [fence, hinfo]
  have hsplit : fence ++ (info ++ '\n' :: s) = fence ++ info ++ ['\n'] ++ s := by simp
  have hopen : isFence (fence ++ info ++ ['\n']) = true :=
    isFence_iff.2 ⟨[], info ++ ['\n'], by simp, by simp⟩
  rw [codeBlockChars, Chars.pieces_append hclosed, hsplit, Chars.pieces_append (.inr ⟨_, rfl⟩),
    Chars.pieces_line hline, List.singleton_append,
    blockLines_append (fun l hl => isFence_of_not_hasFence hplain hl) hopen]
  rfl

section Body

variable {s : List Char}

/-- Lines without a fence line are taken whole. -/
theorem takeWhile_pieces (h : ¬ HasFence s) :
    (Chars.pieces s).takeWhile (fun l => !isFence l) = Chars.pieces s :=
  List.takeWhile_eq_self_iff.2 fun l hl => by simp [isFence_of_not_hasFence h hl]

/-- Closed lines without a fence line are what stands before a closing fence. -/
theorem takeWhile_pieces_fence (hclosed : Chars.Closed s) (h : ¬ HasFence s)
    (rest : List Char) :
    (Chars.pieces (s ++ (fence ++ rest))).takeWhile (fun l => !isFence l) = Chars.pieces s := by
  obtain ⟨first, lines, heq⟩ :=
    Chars.exists_pieces_eq_cons (l := fence) (by decide) (by decide) rest
  have hfence : isFence (fence ++ first) = true := isFence_iff.2 ⟨[], first, rfl, by simp⟩
  rw [Chars.pieces_append hclosed, heq,
    List.takeWhile_append_of_pos fun l hl => by simp [isFence_of_not_hasFence h hl],
    List.takeWhile_cons, hfence]
  simp

theorem takeWhile_append_cons {α : Type} {p : α → Bool} {front rest : List α} {x : α}
    (hx : p x = false) : (front ++ x :: rest).takeWhile p = front.takeWhile p := by
  induction front with
  | nil => simp [hx]
  | cons y front ih => simp [List.takeWhile_cons, ih]

/-- Of closed lines with a fence line at least three characters are not taken. -/
theorem length_takeWhile_pieces (hclosed : Chars.Closed s) (h : HasFence s) (rest : List Char) :
    ((Chars.pieces (s ++ rest)).takeWhile fun l => !isFence l).flatten.length + 3 ≤ s.length := by
  obtain ⟨line, hline, hfence⟩ := hasFence_iff.1 h
  obtain ⟨front, back, hparts⟩ := List.append_of_mem hline
  have htaken : (Chars.pieces (s ++ rest)).takeWhile (fun l => !isFence l) =
      front.takeWhile fun l => !isFence l := by
    rw [Chars.pieces_append hclosed, hparts, List.append_assoc, List.cons_append,
      takeWhile_append_cons (by simp [hfence])]
  have hshort : (front.takeWhile fun l => !isFence l).flatten.length ≤ front.flatten.length :=
    (List.takeWhile_sublist _).flatten.length_le
  have hlength : s.length = front.flatten.length + (line.length + back.flatten.length) := by
    rw [← Chars.flatten_pieces s, hparts]
    simp
  have hthree : 3 ≤ line.length := length_of_isFence hfence
  rw [htaken]
  omega

end Body

/-! ## What was put between two fence lines -/

section Fenced

variable {before info ending code : List Char}

theorem exists_of_ending (h : ending = ['\n'] ∨ ending = ['\r', '\n']) :
    ∃ tail, ending = tail ++ ['\n'] ∧ '\n' ∉ tail := by
  rcases h with rfl | rfl
  · exact ⟨[], rfl, by simp⟩
  · exact ⟨['\r'], rfl, by simp⟩

theorem chomp_append_ending (h : ending = ['\n'] ∨ ending = ['\r', '\n'])
    (hreturn : ending = ['\n'] → code.getLast? ≠ some '\r') :
    Chars.chomp (code ++ ending) = code := by
  rcases h with rfl | rfl
  · rw [Chars.chomp_concat, Chars.dropReturn_of_ne (hreturn rfl)]
  · rw [← List.singleton_append, ← List.append_assoc, Chars.chomp_concat, Chars.dropReturn_concat]

theorem hasFence_append_ending (h : ending = ['\n'] ∨ ending = ['\r', '\n']) :
    HasFence (code ++ ending) ↔ HasFence code := by
  rcases h with rfl | rfl
  · exact HasFence.append_ending (by decide)
  · exact HasFence.append_ending (by decide)

/-- A code between two fence lines comes out as it was put in. -/
theorem codeBlockChars_fenced (hclosed : Chars.Closed before) (hplain : ¬ HasFence before)
    (hinfo : '\n' ∉ info) (hending : ending = ['\n'] ∨ ending = ['\r', '\n'])
    (hcode : ¬ HasFence code) (hreturn : ending = ['\n'] → code.getLast? ≠ some '\r')
    (rest : List Char) :
    codeBlockChars
      (before ++ (fence ++ (info ++ (ending ++ (code ++ (ending ++ (fence ++ rest))))))) =
      some code := by
  obtain ⟨tail, htail, hfeed⟩ := exists_of_ending hending
  have hbody : ¬ HasFence (code ++ ending) := fun h => hcode ((hasFence_append_ending hending).1 h)
  have hopen := codeBlockChars_open hclosed hplain (info ++ tail) (by simp [hinfo, hfeed])
    (code ++ ending ++ (fence ++ rest))
  rw [takeWhile_pieces_fence (.inr ⟨code ++ tail, by simp [htail]⟩) hbody, Chars.flatten_pieces,
    chomp_append_ending hending hreturn] at hopen
  rw [← hopen]
  simp [htail]

/-- A reply that was cut short in its code gives the code without its last line ending. -/
theorem codeBlockChars_unfinished (hclosed : Chars.Closed before) (hplain : ¬ HasFence before)
    (hinfo : '\n' ∉ info) (hending : ending = ['\n'] ∨ ending = ['\r', '\n'])
    (hcode : ¬ HasFence code) :
    codeBlockChars (before ++ (fence ++ (info ++ (ending ++ code)))) =
      some (Chars.chomp code) := by
  obtain ⟨tail, htail, hfeed⟩ := exists_of_ending hending
  have hopen := codeBlockChars_open hclosed hplain (info ++ tail) (by simp [hinfo, hfeed])
    code
  rw [takeWhile_pieces hcode, Chars.flatten_pieces] at hopen
  rw [← hopen]
  simp [htail]

end Fenced

/-! ## Codes of texts -/

theorem closed_toList {text : String} (h : text = "" ∨ ∃ lines, text = lines ++ "\n") :
    Chars.Closed text.toList := by
  rcases h with rfl | ⟨lines, rfl⟩
  · exact .inl rfl
  · exact .inr ⟨lines.toList, String.toList_append⟩

theorem getLast?_toList_ne_return {text : String} :
    text.toList.getLast? ≠ some '\r' ↔ ∀ line, text ≠ line ++ "\r" := by
  have hreturn : "\r".toList = ['\r'] := by decide
  rw [Ne, List.getLast?_eq_some_iff]
  constructor
  · rintro h line rfl
    exact h ⟨line.toList, by rw [String.toList_append, hreturn]⟩
  · rintro h ⟨line, hline⟩
    refine h (String.ofList line) (String.toList_inj.1 ?_)
    rw [hline, String.toList_append, String.toList_ofList, hreturn]

theorem toList_fence : "```".toList = fence := by
  decide

theorem codeBlock_eq_some_iff {text code : String} :
    codeBlock text = some code ↔ codeBlockChars text.toList = some code.toList := by
  rw [codeBlock, Option.map_eq_some_iff]
  constructor
  · rintro ⟨chars, hchars, rfl⟩
    rw [hchars, String.toList_ofList]
  · intro h
    exact ⟨code.toList, h, String.ofList_toList⟩

theorem codeBlockChars_eq_none_iff {s : List Char} : codeBlockChars s = none ↔ ¬ HasFence s := by
  have hdrop : (Chars.pieces s).dropWhile (fun l => !isFence l) = [] ↔ ¬ HasFence s := by
    rw [List.dropWhile_eq_nil_iff, hasFence_iff]
    simp
  rw [codeBlockChars, Option.map_eq_none_iff, blockLines, ← hdrop]
  split
  · rename_i hnil
    simp [hnil]
  · rename_i hcons
    simp [hcons]

/-- What a fenced reply says before its code. -/
def greeting : List Char := "Here is the updated cell:\n\n".toList

/-- What a fenced reply says behind its code. -/
def farewell : List Char := "\n\nThe change is shown above.".toList

theorem toList_fencedReply (code : String) :
    (fencedReply code).toList =
      greeting ++ (fence ++ ("python".toList ++ '\n' ::
        (code.toList ++ ['\n'] ++ (fence ++ farewell)))) := by
  have hbefore : "Here is the updated cell:\n\n```python\n".toList =
      greeting ++ (fence ++ ("python".toList ++ ['\n'])) := by decide
  have hafter : "\n```\n\nThe change is shown above.".toList = '\n' :: (fence ++ farewell) := by
    decide
  unfold fencedReply
  rw [String.toList_append, String.toList_append, hbefore, hafter]
  simp only [List.append_assoc, List.cons_append, List.nil_append]

theorem closed_greeting : Chars.Closed greeting := by
  refine .inr ⟨"Here is the updated cell:\n".toList, ?_⟩
  decide

theorem not_hasFence_greeting : ¬ HasFence greeting :=
  not_hasFence_of_not_mem (by decide)

/-- A fenced reply gives its code back exactly if the code has no fence line of its own and
does not end in a carriage return, which would be taken for part of the line ending. -/
theorem codeBlockChars_fencedReply_iff (code : String) :
    codeBlockChars (fencedReply code).toList = some code.toList ↔
      ¬ HasFence code.toList ∧ code.toList.getLast? ≠ some '\r' := by
  have hopen := codeBlockChars_open closed_greeting not_hasFence_greeting "python".toList
    (by decide) (code.toList ++ ['\n'] ++ (fence ++ farewell))
  have hfeed : Chars.Closed (code.toList ++ ['\n']) := .inr ⟨_, rfl⟩
  rw [toList_fencedReply, hopen, Option.some.injEq]
  by_cases hfence : HasFence code.toList
  · simp only [hfence, not_true_eq_false, false_and, iff_false]
    intro heq
    have hbody := (hasFence_append_ending (.inl rfl)).2 hfence
    have hlost := length_takeWhile_pieces hfeed hbody (fence ++ farewell)
    have hchomp := (Chars.chomped_chomp
      ((Chars.pieces (code.toList ++ ['\n'] ++ (fence ++ farewell))).takeWhile
        fun l => !isFence l).flatten).length_le
    rw [heq] at hchomp
    simp only [List.length_append, List.length_singleton] at hlost
    omega
  · have hbody : ¬ HasFence (code.toList ++ ['\n']) :=
      fun h => hfence ((hasFence_append_ending (.inl rfl)).1 h)
    rw [takeWhile_pieces_fence hfeed hbody, Chars.flatten_pieces, Chars.chomp_concat]
    simp only [hfence, not_false_eq_true, true_and]
    constructor
    · intro heq hreturn
      obtain ⟨q, hq⟩ := List.getLast?_eq_some_iff.1 hreturn
      rw [hq, Chars.dropReturn_concat] at heq
      exact absurd (congrArg List.length heq) (by simp)
    · exact Chars.dropReturn_of_ne

/-- **The code of a reply comes out as it was put in.**  A text without a fence line, and no
other, offers no code; a fence line is a line that starts with three backticks once its leading
blanks are dropped.  A code without a fence line, put between two fence lines behind closed
lines without one, comes out unchanged, with either line ending and whatever stands behind the
closing fence; only a final carriage return in front of a bare line feed would be lost.  Where
the reply was cut short, the code comes out with at most its last line ending dropped.  A fenced
reply gives its code back exactly if the code has no fence line and no final carriage return. -/
theorem codeBlock_verbatim :
    (∀ text : String,
      (codeBlock text = none ↔ ¬ HasFence text.toList) ∧
      (HasFence text.toList ↔
        ∃ line ∈ Chars.pieces text.toList, fence <+: Chars.trimStart line)) ∧
    (∀ before info ending code : String,
      before = "" ∨ (∃ lines, before = lines ++ "\n") → ¬ HasFence before.toList →
      '\n' ∉ info.toList → ending = "\n" ∨ ending = "\r\n" → ¬ HasFence code.toList →
        ((ending = "\n" → ∀ line, code ≠ line ++ "\r") → ∀ rest : String,
          codeBlock (before ++ "```" ++ info ++ ending ++ code ++ ending ++ "```" ++ rest) =
            some code) ∧
        ∃ shown : String,
          codeBlock (before ++ "```" ++ info ++ ending ++ code) = some shown ∧
          Chars.Chomped code.toList shown.toList) ∧
    ∀ code : String, codeBlock (fencedReply code) = some code ↔
      ¬ HasFence code.toList ∧ ∀ line, code ≠ line ++ "\r" := by
  refine ⟨fun text => ⟨?_, ?_⟩, ?_, fun code => ?_⟩
  · rw [codeBlock, Option.map_eq_none_iff, codeBlockChars_eq_none_iff]
  · rw [hasFence_iff]
    simp only [isFence, List.isPrefixOf_iff_prefix]
  · intro before info ending code hbefore hplain hinfo hending hcode
    have hclosed : Chars.Closed before.toList := closed_toList hbefore
    have hending : ending.toList = ['\n'] ∨ ending.toList = ['\r', '\n'] := by
      rcases hending with rfl | rfl
      · exact .inl (by decide)
      · exact .inr (by decide)
    refine ⟨fun hreturn rest => ?_, String.ofList (Chars.chomp code.toList), ?_, ?_⟩
    · have hlast : ending.toList = ['\n'] → code.toList.getLast? ≠ some '\r' := fun h =>
        getLast?_toList_ne_return.2 (hreturn (String.toList_inj.1 h))
      rw [codeBlock_eq_some_iff,
        ← codeBlockChars_fenced hclosed hplain hinfo hending hcode hlast rest.toList]
      simp only [String.toList_append, List.append_assoc, toList_fence]
    · rw [codeBlock_eq_some_iff, String.toList_ofList,
        ← codeBlockChars_unfinished hclosed hplain hinfo hending hcode]
      simp only [String.toList_append, List.append_assoc, toList_fence]
    · rw [String.toList_ofList]
      exact Chars.chomped_chomp code.toList
  · rw [codeBlock_eq_some_iff, codeBlockChars_fencedReply_iff, getLast?_toList_ne_return]

/-- Three backticks inside a line, an empty line and a line ending of two characters come out as
they were put in; of a reply that was cut short, only the last line ending is dropped. -/
theorem codeBlock_verbatim_returns :
    let code := "a = '```'\r\n\r\nb"
    codeBlock ("Fix:\r\n" ++ "```" ++ "python" ++ "\r\n" ++ code ++ "\r\n" ++ "```" ++
      "\r\nDone.") = some code ∧
    codeBlock ("Fix:\r\n" ++ "```" ++ "python" ++ "\r\n" ++ code) = some code ∧
    codeBlock (fencedReply code) = some code := by
  intro code
  obtain ⟨-, hfenced, hreply⟩ := codeBlock_verbatim
  have hcode : ¬ HasFence code.toList := by decide
  have hfeed : code.toList.getLast? ≠ some '\n' := by decide
  have hreturn : code.toList.getLast? ≠ some '\r' := by decide
  obtain ⟨hwhole, shown, hshown, hchomped⟩ := hfenced "Fix:\r\n" "python" "\r\n" code
    (.inr ⟨"Fix:\r", by decide⟩) (by decide) (by decide) (.inr rfl) hcode
  refine ⟨hwhole (fun h => absurd h (by decide)) "\r\nDone.", ?_,
    (hreply code).2 ⟨hcode, getLast?_toList_ne_return.1 hreturn⟩⟩
  have heq : code = shown := by
    rw [← String.toList_inj]
    generalize code.toList = chars at hchomped hfeed
    cases hchomped with
    | feed => exact absurd List.getLast?_concat hfeed
    | returnFeed => simp at hfeed
    | unended => rfl
  rw [hshown, heq]

end CellReview.Chat
