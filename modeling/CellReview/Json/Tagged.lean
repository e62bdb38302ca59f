import CellReview.Json.Reader

/-!
# Reading values of several shapes

A tag tells which shape a value has.  The tag stands among the members of the
value, or beside a second member that holds them.  Both forms are those of the typed reading that
`CellReview.Json.Reader` stands for.

* `Reader.tagged` — the tag is one of the members of the value itself;
* `Reader.beside` — the tag is one member, the content another.
-/

namespace CellReview.Reader

variable {α κ : Type}

/-- A string that names a tag. -/
def tagName (ofName : String → Option κ) : Reader κ :=
  refine ofName string

/-! ## A tag among the members -/

/-- Take the tag out of the entries of an object, keeping the others in their order. -/
def takeTag (tag : String) (ofName : String → Option κ) (r : Reading) :
    List (Option String × Doc) → Option κ →
      Except Fault (Option κ × List (Option String × Doc))
  | [], found => .ok (found, [])
  | (none, _) :: _, _ => .error .malformed
  | (some key, d) :: rest, found =>
    if key = tag then
      if found.isSome then .error .mismatch
      else do
        let k ← tagName ofName r d
        takeTag tag ofName r rest (some k)
    else if (d.value? r.depth).isNone then .error .malformed
    else do
      let (found, others) ← takeTag tag ofName r rest found
      .ok (found, (some key, d) :: others)

/-- Check that the items of an array are JSON throughout. -/
def checkItems (r : Reading) : List Doc → Except Fault Unit
  | [] => .ok ()
  | d :: rest => if (d.value? r.depth).isNone then .error .malformed else checkItems r rest

/-- A value with its tag among its members, or in front of them in an array. -/
def tagged (tag : String) (ofName : String → Option κ) (body : κ → Reader α) : Reader α
  | r, .object entries closed => do
    let inner ← r.enter
    let (found, others) ← takeTag tag ofName inner entries none
    if !closed then .error .malformed
    else
      match found with
      | none => .error .mismatch
      | some k => body k inner.ofWhole (.object others true)
  | r, .array [] closed => do
    let _ ← r.enter
    .error (if closed then .mismatch else .malformed)
  | r, .array (d :: rest) closed => do
    let inner ← r.enter
    let k ← tagName ofName inner d
    checkItems inner rest
    if !closed then .error .malformed
    else body k inner.ofWhole (.array rest true)
  | _, .nameless _ => .error .malformed
  | _, d => .error d.unwanted

/-! ## A tag beside the content -/

/-- The first entry with one of two names, and what follows it; others are skipped. -/
def nextOf (tag content : String) :
    List (Option String × Doc) →
      Except Fault (Option (Bool × Doc × List (Option String × Doc)))
  | [] => .ok none
  | (none, _) :: _ => .error .malformed
  | (some key, d) :: rest =>
    if key = tag then .ok (some (true, d, rest))
    else if key = content then .ok (some (false, d, rest))
    else do
      skippable d
      nextOf tag content rest

/-- Check that neither name occurs again and that the object is closed. -/
def noneLeft (tag content : String) (closed : Bool) (rest : List (Option String × Doc)) :
    Except Fault Unit := do
  match ← nextOf tag content rest with
  | some _ => .error .mismatch
  | none => if closed then .ok () else .error .malformed

/-- A value whose tag is one member and whose content is another; `bare` holds the values
that need no content.  In an array the tag comes first, and it is a string. -/
def beside (tag content : String) (ofName : String → Option κ) (bare : κ → Option α)
    (body : κ → Reader α) : Reader α
  | r, .object entries closed => do
    let inner ← r.enter
    match ← nextOf tag content entries with
    | none => .error (if closed then .mismatch else .malformed)
    | some (true, d, rest) =>
      let k ← enum ofName inner d
      match ← nextOf tag content rest with
      | none =>
        if !closed then .error .malformed
        else
          match bare k with
          | some a => .ok a
          | none => .error .mismatch
      | some (true, _, _) => .error .mismatch
      | some (false, d, rest) =>
        let a ← body k inner d
        noneLeft tag content closed rest
        .ok a
    | some (false, d, rest) =>
      if (d.value? inner.depth).isNone then .error .malformed
      else
        match ← nextOf tag content rest with
        | none => .error (if closed then .mismatch else .malformed)
        | some (false, _, _) => .error .mismatch
        | some (true, t, rest) =>
          let k ← enum ofName inner t
          let a ← body k inner.ofWhole d
          noneLeft tag content closed rest
          .ok a
  | r, .array ds closed => do
    let inner ← r.enter
    match ds with
    | [] => .error (if closed then .mismatch else .malformed)
    | t :: rest =>
      let k ← tagName ofName inner t
      match rest with
      | [] => .error (if closed then .mismatch else .malformed)
      | d :: rest =>
        let a ← body k inner d
        if !rest.isEmpty then .error (if r.inText then .malformed else .mismatch)
        else if !closed then .error .malformed
        else .ok a
  | _, .nameless _ => .error .malformed
  | _, d => .error d.unwanted

end CellReview.Reader
