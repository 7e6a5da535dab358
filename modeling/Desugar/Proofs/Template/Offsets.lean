import Mathlib.Data.String.Basic
import Desugar.Proofs.Template.Split

/-!
# Splitting by byte offsets

A text can also be split by the offsets of its bytes: embeds are found by comparing offsets, and
their parts are slices of the text. A slice exists only if its ends are boundaries between
characters, so a wrong offset shows as a failure. The scan by offsets never fails. It finds the
same outline of the text as the scan by characters, and the outline decides what the reader is
asked and where splitting ends.

- `slice?` is the part of a text between two offsets, if it exists, and `slice?_of_append` finds it.
- `outlineAt?` is the scan by offsets, with `closingAt?`, `cutAt?` and `holeAt?` for embeds.
- `Outlines` says what a scan meets, rule by rule, and every text has an outline
  (`exists_outlines`).
- `Outlines.outlineAt?_eq`: the scan by offsets finds the outline.
- `Outlines.pieces_eq`: splitting follows the outline.
-/

namespace Desugar

/-! ## Slices -/

namespace Template

/-- The part of a text between two byte offsets. There is none if one of them is not a boundary
between characters, or if they are in the wrong order. -/
def slice? (text : String) (start stop : Nat) : Option String :=
  if start ≤ stop ∧ String.Pos.Raw.IsValid text ⟨start⟩ ∧ String.Pos.Raw.IsValid text ⟨stop⟩ then
    some (String.Pos.Raw.extract text ⟨start⟩ ⟨stop⟩)
  else none

theorem byteCount_eq_utf8Len (cs : List Char) : byteCount cs = String.utf8Len cs := by
  induction cs with
  | nil => rfl
  | cons c cs ih => rw [byteCount, ih, String.utf8Len_cons, Nat.add_comm]

/-- The count of bytes is the size of the text in UTF-8. -/
theorem byteCount_toList (text : String) : byteCount text.toList = text.utf8ByteSize := by
  rw [byteCount_eq_utf8Len, ← String.utf8ByteSize_ofList, String.ofList_toList]

/-- The offset after some first characters of a text is a boundary. -/
theorem isValid_of_append {text : String} {front back : List Char}
    (h : text.toList = front ++ back) : String.Pos.Raw.IsValid text ⟨byteCount front⟩ := by
  rw [String.Pos.Raw.isValid_iff_exists_append]
  refine ⟨String.ofList front, String.ofList back, ?_, ?_⟩
  · rw [← String.ofList_append, ← h, String.ofList_toList]
  · rw [byteCount_eq_utf8Len, ← String.utf8ByteSize_ofList]
    rfl

/-- The slice between the offsets of two characters is the text between them. -/
theorem slice?_of_append {text : String} {front middle back : List Char}
    (h : text.toList = front ++ (middle ++ back)) :
    slice? text (byteCount front) (byteCount front + byteCount middle) =
      some (String.ofList middle) := by
  have hstart : String.Pos.Raw.IsValid text ⟨byteCount front⟩ := isValid_of_append h
  have hstop : String.Pos.Raw.IsValid text ⟨byteCount front + byteCount middle⟩ := by
    rw [← byteCount_append]
    exact isValid_of_append (by rw [h, List.append_assoc])
  have htext : text = String.ofList (front ++ middle ++ back) := by
    rw [List.append_assoc, ← h, String.ofList_toList]
  rw [slice?, if_pos ⟨Nat.le_add_right _ _, hstart, hstop⟩, htext, byteCount_eq_utf8Len,
    byteCount_eq_utf8Len, String.extract_of_valid]

/-! ## The scan -/

/-- The characters of a text with their offsets. -/
def indexed (offset : Nat) : List Char → List (Nat × Char)
  | [] => []
  | c :: cs => (offset, c) :: indexed (offset + c.utf8Size) cs

/-- The offset of the first closing parenthesis outside brackets and literals. -/
def closingAt? (n : Nesting) : List (Nat × Char) → Option Nat
  | [] => none
  | (offset, c) :: chars =>
    if c = ')' ∧ n.isTop then some offset else closingAt? (n.next c) chars

/-- The offset of the last colon outside brackets and literals, after the `last` one so far. -/
def lastColonAt? (n : Nesting) (last : Option Nat) : List (Nat × Char) → Option Nat
  | [] => last
  | (offset, c) :: chars =>
    lastColonAt? (n.next c) (if c = ':' ∧ n.isTop then some offset else last) chars

/-- The source of an embed and its verb, if it has one, by slices of its body. -/
def cutAt? (body : String) : Option (String × Option String) :=
  match lastColonAt? {} none (indexed 0 body.toList) with
  | none => some (body, none)
  | some colon => do
    let source ← slice? body 0 colon
    let verb ← slice? body (colon + 1) body.utf8ByteSize
    some (source, some (String.ofList (Blank.trim verb.toList)))

/-- An embed as the scan finds it. -/
structure Hole where
  /-- What is embedded, with the blanks around it. -/
  source : String
  verb : Option String
  /-- The place of the source. -/
  place : Span
  /-- The place of the embed. -/
  span : Span

/-- The embed whose backslash and closing parenthesis have the given offsets, or the fault in it.
Offsets count from the start of the text, and places from `start`. -/
def holeAt? (raw : String) (start index close : Nat) : Option (Except Fault Hole) := do
  let body ← slice? raw (index + 2) close
  let (source, verb) ← cutAt? body
  let span : Span := ⟨start + index, start + close + 1⟩
  if (Blank.trim source.toList).isEmpty then some (.error ⟨.emptyEmbed, span⟩)
  else
    match verb.filter fun verb => !Verb.isVerb verb with
    | some verb => some (.error ⟨.unknownEmbedVerb verb, span⟩)
    | none =>
      let place : Span := ⟨start + (index + 2), start + (index + 2) + source.utf8ByteSize⟩
      some (.ok { source, verb, place, span })

/-- What the scan meets. -/
inductive Mark where
  | char (c : Char)
  | hole (hole : Hole)

/-- What the scan meets, and the fault that ends it early. -/
structure Outline where
  marks : List Mark
  fault : Option Fault

/-- Adds a mark in front of an outline. -/
def Outline.cons (mark : Mark) (o : Outline) : Outline := { o with marks := mark :: o.marks }

/-- The outline of a text, of which the given characters are still to be scanned. It fails if a
slice is taken that the text does not have. -/
def outlineAt? (raw : String) (start : Nat) (chars : List (Nat × Char)) : Option Outline :=
  match chars with
  | [] => some ⟨[], none⟩
  | [(index, '\\')] =>
    some ⟨[], some ⟨.danglingBackslash, ⟨start + index, start + index + 1⟩⟩⟩
  | (index, '\\') :: (_, '(') :: chars =>
    match slice? raw (index + 2) raw.utf8ByteSize with
    | none => none
    | some tail =>
      match closingAt? {} (indexed (index + 2) tail.toList) with
      | none =>
        some ⟨[], some ⟨.unterminatedEmbed, ⟨start + index, start + raw.utf8ByteSize⟩⟩⟩
      | some close =>
        match holeAt? raw start index close with
        | none => none
        | some (.error fault) => some ⟨[], some fault⟩
        | some (.ok hole) =>
          -- the characters up to the closing parenthesis are skipped by their offsets
          (outlineAt? raw start (chars.dropWhile (·.1 ≤ close))).map (.cons (.hole hole))
  | (index, '\\') :: (_, first) :: chars =>
    let (decoded, left) := Escape.decode first (chars.map Prod.snd)
    let rest := chars.drop (chars.length - left.length)
    match decoded with
    | some c => (outlineAt? raw start rest).map (.cons (.char c))
    | none =>
      let stop := (rest.head?.map Prod.fst).getD raw.utf8ByteSize
      some ⟨[], some ⟨.invalidEscape first, ⟨start + index, start + stop⟩⟩⟩
  | (_, c) :: chars => (outlineAt? raw start chars).map (.cons (.char c))
termination_by chars.length
decreasing_by
  · have := (chars.dropWhile_sublist (·.1 ≤ close)).length_le
    simp only [List.length_cons]
    omega
  · simp only [List.length_drop, List.length_cons]
    omega
  · exact Nat.lt_succ_self _

/-! ## Offsets of characters -/

/-- The offsets of a text go on where the text before it ends. -/
theorem indexed_append (offset : Nat) (cs ds : List Char) :
    indexed offset (cs ++ ds) = indexed offset cs ++ indexed (offset + byteCount cs) ds := by
  induction cs generalizing offset with
  | nil => rfl
  | cons c cs ih => simp [indexed, byteCount, ih, Nat.add_assoc]

/-- Offsets do not change the characters. -/
theorem map_snd_indexed (offset : Nat) (cs : List Char) :
    (indexed offset cs).map Prod.snd = cs := by
  induction cs generalizing offset with
  | nil => rfl
  | cons c cs ih => simp [indexed, ih]

theorem length_indexed (offset : Nat) (cs : List Char) :
    (indexed offset cs).length = cs.length := by
  have hlength := congrArg List.length (map_snd_indexed offset cs)
  rwa [List.length_map] at hlength

/-- Every character starts before the end of the text. -/
theorem fst_lt_of_mem_indexed {offset : Nat} {cs : List Char} {p : Nat × Char}
    (h : p ∈ indexed offset cs) : p.1 < offset + byteCount cs := by
  induction cs generalizing offset with
  | nil => cases h
  | cons c cs ih =>
    have hsize := c.utf8Size_pos
    rw [byteCount]
    rcases List.mem_cons.mp h with rfl | h
    · show offset < _
      omega
    · have hrest := ih h
      omega

/-- The first offset that is left is that of the first character, or the end of the text. -/
theorem head?_indexed (offset : Nat) (cs : List Char) :
    ((indexed offset cs).head?.map Prod.fst).getD (offset + byteCount cs) = offset := by
  cases cs with
  | nil => rfl
  | cons c cs => rfl

/-- Skipping by offsets skips whole characters. -/
theorem dropWhile_indexed {offset close : Nat} {cs : List Char}
    (h : offset + byteCount cs = close + 1) (ds : List Char) :
    (indexed offset (cs ++ ds)).dropWhile (·.1 ≤ close) = indexed (close + 1) ds := by
  have hfront : ∀ p ∈ indexed offset cs, decide (p.1 ≤ close) = true := by
    intro p hp
    have hlt := fst_lt_of_mem_indexed hp
    exact decide_eq_true (by omega)
  rw [indexed_append, List.dropWhile_append_of_pos hfront, h]
  cases ds with
  | nil => rfl
  | cons d ds => exact List.dropWhile_cons_of_neg (by simp)

/-- Dropping all but the last characters leaves them with their offsets. -/
theorem drop_indexed (offset : Nat) (cs ds : List Char) :
    (indexed offset (cs ++ ds)).drop ((indexed offset (cs ++ ds)).length - ds.length) =
      indexed (offset + byteCount cs) ds := by
  have hlength : (indexed offset (cs ++ ds)).length - ds.length = (indexed offset cs).length := by
    rw [length_indexed, length_indexed, List.length_append]
    omega
  rw [hlength, indexed_append, List.drop_left]

/-! ## Cuts by offsets -/

/-- The search by offsets finds the closing parenthesis that the search by characters finds. -/
theorem closingAt?_indexed (n : Nesting) (offset : Nat) (cs : List Char) :
    closingAt? n (indexed offset cs) =
      (n.closing? cs).map fun cut => offset + byteCount cut.1 := by
  induction cs generalizing n offset with
  | nil => rfl
  | cons c cs ih =>
    rw [indexed, closingAt?, Nesting.closing?, ih]
    split
    · rfl
    · cases (n.next c).closing? cs with
      | none => rfl
      | some cut => simp [byteCount, Nat.add_assoc]

/-- The search by offsets finds the colon that the search by characters finds. -/
theorem lastColonAt?_indexed (n : Nesting) (last : Option Nat) (offset : Nat) (cs : List Char) :
    lastColonAt? n last (indexed offset cs) =
      ((n.lastColon? cs).map fun cut => offset + byteCount cut.1).or last := by
  induction cs generalizing n last offset with
  | nil => rfl
  | cons c cs ih =>
    rw [indexed, lastColonAt?, Nesting.lastColon?, ih]
    cases (n.next c).lastColon? cs with
    | some cut => simp [byteCount, Nat.add_assoc]
    | none =>
      simp only [Option.map_none, Option.none_or]
      split <;> rfl

end Template

/-- Cutting a text loses only the colon. -/
theorem Nesting.append_of_lastColon? {n : Nesting} {cs before behind : List Char}
    (h : n.lastColon? cs = some (before, behind)) : cs = before ++ ':' :: behind := by
  induction cs generalizing n before with
  | nil => cases h
  | cons c cs ih =>
    rw [lastColon?] at h
    split at h
    · next hcut =>
      cases h
      rw [List.cons_append, ← ih hcut]
    · split at h
      · next hc =>
        cases h
        rw [hc.1, List.nil_append]
      · cases h

/-- Reading the digits of an escape leaves an end of the text. -/
theorem Escape.digits_suffix (base count value : Nat) (cs : List Char) :
    (digits base count value cs).2 <:+ cs := by
  induction count generalizing value cs with
  | zero => exact List.suffix_rfl
  | succ count ih =>
    cases cs with
    | nil => exact List.suffix_rfl
    | cons c cs =>
      rw [digits]
      split
      · exact (ih _ cs).trans (List.suffix_cons c cs)
      · exact List.suffix_rfl

/-- What is left after an escape is an end of the text. -/
theorem Escape.decode_suffix (first : Char) (cs : List Char) : (decode first cs).2 <:+ cs := by
  unfold decode
  split
  · exact List.suffix_rfl
  · split
    · exact digits_suffix _ _ _ cs
    · exact List.suffix_rfl

namespace Template

/-- The slices of a body are the source and the verb that it is cut into. -/
theorem cutAt?_ofList (body : List Char) :
    cutAt? (String.ofList body) = some (String.ofList (sourceAndVerb body).1,
      (sourceAndVerb body).2.map String.ofList) := by
  rw [cutAt?, String.toList_ofList, lastColonAt?_indexed, Option.or_none, sourceAndVerb]
  cases hcut : Nesting.lastColon? {} body with
  | none => rfl
  | some cut =>
    obtain ⟨source, verb⟩ := cut
    have hbody : body = source ++ ':' :: verb := Nesting.append_of_lastColon? hcut
    have hcolon : byteCount (source ++ [':']) = byteCount source + 1 := by
      rw [byteCount_append]
      rfl
    have hsource : slice? (String.ofList body) 0 (0 + byteCount source) =
        some (String.ofList source) := by
      have hparts : (String.ofList body).toList = [] ++ (source ++ ':' :: verb) := by
        rw [String.toList_ofList, hbody, List.nil_append]
      exact slice?_of_append hparts
    have hverb : slice? (String.ofList body) (0 + byteCount source + 1)
        (String.ofList body).utf8ByteSize = some (String.ofList verb) := by
      have hparts : (String.ofList body).toList = (source ++ [':']) ++ (verb ++ []) := by
        simp [hbody]
      have hsize : (String.ofList body).utf8ByteSize = byteCount source + 1 + byteCount verb := by
        rw [← byteCount_toList, hparts, List.append_nil, byteCount_append, hcolon]
      rw [hsize, Nat.zero_add, ← hcolon]
      exact slice?_of_append hparts
    simp only [Option.map_some, hsource, hverb, Option.bind_eq_bind, Option.bind_some,
      String.toList_ofList]

/-! ## Outlines -/

/-- The embed with a body, whose backslash is at an offset, or the fault in it. -/
def holeOf (offset : Nat) (body : List Char) : Except Fault Hole :=
  let (source, verb) := sourceAndVerb body
  let verb := verb.map String.ofList
  let span : Span := ⟨offset, offset + 2 + byteCount body + 1⟩
  if (Blank.trim source).isEmpty then .error ⟨.emptyEmbed, span⟩
  else
    match verb.filter fun verb => !Verb.isVerb verb with
    | some verb => .error ⟨.unknownEmbedVerb verb, span⟩
    | none =>
      let place : Span := ⟨offset + 2, offset + 2 + byteCount source⟩
      .ok { source := String.ofList source, verb, place, span }

/-- What the scan of a text meets after the characters in front. Each rule tells what stands next,
where the scan goes on, and which places it notes. -/
inductive Outlines (raw : String) (start : Nat) : List Char → List Char → Outline → Prop where
  | nil {front : List Char} : Outlines raw start front [] ⟨[], none⟩
  | dangling {front : List Char} : Outlines raw start front ['\\']
      ⟨[], some ⟨.danglingBackslash,
        ⟨start + byteCount front, start + byteCount front + 1⟩⟩⟩
  | char {front cs : List Char} {c : Char} {o : Outline} (hc : c ≠ '\\')
      (rest : Outlines raw start (front ++ [c]) cs o) :
      Outlines raw start front (c :: cs) (o.cons (.char c))
  | unterminated {front cs : List Char} (hbody : Nesting.closing? {} cs = none) :
      Outlines raw start front ('\\' :: '(' :: cs)
        ⟨[], some ⟨.unterminatedEmbed,
          ⟨start + byteCount front, start + raw.utf8ByteSize⟩⟩⟩
  | faulty {front body cs : List Char} {fault : Fault}
      (hbody : Nesting.closing? {} (body ++ ')' :: cs) = some (body, cs))
      (hhole : holeOf (start + byteCount front) body = .error fault) :
      Outlines raw start front ('\\' :: '(' :: (body ++ ')' :: cs)) ⟨[], some fault⟩
  | hole {front body cs : List Char} {hole : Hole} {o : Outline}
      (hbody : Nesting.closing? {} (body ++ ')' :: cs) = some (body, cs))
      (hhole : holeOf (start + byteCount front) body = .ok hole)
      (rest : Outlines raw start (front ++ '\\' :: '(' :: (body ++ [')'])) cs o) :
      Outlines raw start front ('\\' :: '(' :: (body ++ ')' :: cs)) (o.cons (.hole hole))
  | escape {front digits cs : List Char} {first c : Char} {o : Outline} (hfirst : first ≠ '(')
      (hdecode : Escape.decode first (digits ++ cs) = (some c, cs))
      (rest : Outlines raw start (front ++ '\\' :: first :: digits) cs o) :
      Outlines raw start front ('\\' :: first :: (digits ++ cs)) (o.cons (.char c))
  | invalid {front digits cs : List Char} {first : Char} (hfirst : first ≠ '(')
      (hdecode : Escape.decode first (digits ++ cs) = (none, cs)) :
      Outlines raw start front ('\\' :: first :: (digits ++ cs))
        ⟨[], some ⟨.invalidEscape first, ⟨start + byteCount front,
          start + byteCount front + byteCount ('\\' :: first :: digits)⟩⟩⟩

/-- Every text has an outline. -/
theorem exists_outlines (raw : String) (start : Nat) (front cs : List Char) :
    ∃ o, Outlines raw start front cs o := by
  -- embeds and escapes take several characters at once, so the induction is on the length
  induction hlength : cs.length using Nat.strong_induction_on generalizing front cs with
  | _ length ih =>
    subst hlength
    rcases cs with _ | ⟨c, cs⟩
    · exact ⟨_, .nil⟩
    by_cases hc : c = '\\'
    · subst hc
      rcases cs with _ | ⟨first, cs⟩
      · exact ⟨_, .dangling⟩
      by_cases hfirst : first = '('
      · subst hfirst
        cases hbody : Nesting.closing? {} cs with
        | none => exact ⟨_, .unterminated hbody⟩
        | some cut =>
          obtain ⟨body, rest⟩ := cut
          have hlt := Nesting.length_lt_of_closing? hbody
          obtain rfl : cs = body ++ ')' :: rest := Nesting.append_of_closing? hbody
          cases hhole : holeOf (start + byteCount front) body with
          | error fault => exact ⟨_, .faulty hbody hhole⟩
          | ok hole =>
            obtain ⟨o, ho⟩ := ih rest.length (by simp only [List.length_cons]; omega)
              (front ++ '\\' :: '(' :: (body ++ [')'])) rest rfl
            exact ⟨_, .hole hbody hhole ho⟩
      · obtain ⟨digits, hdigits⟩ := Escape.decode_suffix first cs
        cases hdecode : Escape.decode first cs with
        | mk decoded rest =>
          rw [hdecode] at hdigits
          subst hdigits
          cases decoded with
          | none => exact ⟨_, .invalid hfirst hdecode⟩
          | some c =>
            obtain ⟨o, ho⟩ := ih rest.length
              (by simp only [List.length_cons, List.length_append]; omega)
              (front ++ '\\' :: first :: digits) rest rfl
            exact ⟨_, .escape hfirst hdecode ho⟩
    · obtain ⟨o, ho⟩ := ih cs.length (Nat.lt_succ_self _) (front ++ [c]) cs rfl
      exact ⟨_, .char hc ho⟩

/-! ## The scan by offsets finds the outline -/

theorem byteCount_opening (front : List Char) :
    byteCount (front ++ ['\\', '(']) = byteCount front + 2 := by
  rw [byteCount_append]
  rfl

/-- An embed takes three bytes more than its body. -/
theorem byteCount_embed (front body : List Char) :
    byteCount (front ++ '\\' :: '(' :: (body ++ [')'])) =
      byteCount front + 2 + byteCount body + 1 := by
  have hparts : front ++ '\\' :: '(' :: (body ++ [')']) =
      (front ++ ['\\', '(']) ++ body ++ [')'] := by simp
  rw [hparts, byteCount_append, byteCount_append, byteCount_opening]
  rfl

theorem indexed_backslash (offset : Nat) (first : Char) (cs : List Char) :
    indexed offset ('\\' :: first :: cs) =
      (offset, '\\') :: (offset + 1, first) :: indexed (offset + 1 + first.utf8Size) cs := rfl

theorem byteCount_backslash (first : Char) (digits : List Char) :
    byteCount ('\\' :: first :: digits) = 1 + (first.utf8Size + byteCount digits) := rfl

/-- The slices for an embed are its body and the parts of it. -/
theorem holeAt?_eq {raw : String} {front body cs : List Char}
    (hraw : raw.toList = front ++ '\\' :: '(' :: (body ++ ')' :: cs)) (start : Nat) :
    holeAt? raw start (byteCount front) (byteCount front + 2 + byteCount body) =
      some (holeOf (start + byteCount front) body) := by
  have hbody : slice? raw (byteCount front + 2) (byteCount front + 2 + byteCount body) =
      some (String.ofList body) := by
    have hparts : raw.toList = (front ++ ['\\', '(']) ++ (body ++ ')' :: cs) := by simp [hraw]
    rw [← byteCount_opening]
    exact slice?_of_append hparts
  have hstop : start + (byteCount front + 2 + byteCount body) + 1 =
      start + byteCount front + 2 + byteCount body + 1 := by omega
  have hplace : start + (byteCount front + 2) = start + byteCount front + 2 := by omega
  have hsource (source : List Char) : (String.ofList source).utf8ByteSize = byteCount source := by
    rw [← byteCount_toList, String.toList_ofList]
  simp only [holeAt?, hbody, cutAt?_ofList, Option.bind_eq_bind, Option.bind_some,
    String.toList_ofList, hstop, hplace, hsource, holeOf]
  split
  · rfl
  · split <;> rfl

/-- A character other than a backslash stands for itself. -/
theorem outlineAt?_cons (raw : String) (start index : Nat) {c : Char} (hc : c ≠ '\\')
    (chars : List (Nat × Char)) : outlineAt? raw start ((index, c) :: chars) =
      (outlineAt? raw start chars).map (.cons (.char c)) := by
  rw [outlineAt?] <;> simp [hc]

/-- After an opening, the scan by offsets takes the embed as a whole. -/
theorem outlineAt?_opening {raw : String} {front cs : List Char}
    (hraw : raw.toList = front ++ '\\' :: '(' :: cs) (start : Nat) :
    outlineAt? raw start (indexed (byteCount front) ('\\' :: '(' :: cs)) =
      match Nesting.closing? {} cs with
      | none => some ⟨[], some ⟨.unterminatedEmbed,
          ⟨start + byteCount front, start + raw.utf8ByteSize⟩⟩⟩
      | some (body, rest) =>
        match holeOf (start + byteCount front) body with
        | .error fault => some ⟨[], some fault⟩
        | .ok hole =>
          (outlineAt? raw start (indexed (byteCount front + 2 + byteCount body + 1) rest)).map
            (.cons (.hole hole)) := by
  have htail : slice? raw (byteCount front + 2) raw.utf8ByteSize = some (String.ofList cs) := by
    have hparts : raw.toList = (front ++ ['\\', '(']) ++ (cs ++ []) := by simp [hraw]
    have hsize : raw.utf8ByteSize = byteCount front + 2 + byteCount cs := by
      rw [← byteCount_toList, hparts, byteCount_append, byteCount_opening, List.append_nil]
    rw [hsize, ← byteCount_opening]
    exact slice?_of_append hparts
  rw [indexed_backslash, outlineAt?, htail]
  simp only [String.toList_ofList, closingAt?_indexed]
  cases hbody : Nesting.closing? {} cs with
  | none => rfl
  | some cut =>
    obtain ⟨body, rest⟩ := cut
    obtain rfl : cs = body ++ ')' :: rest := Nesting.append_of_closing? hbody
    have hskip : (indexed (byteCount front + 1 + '('.utf8Size) (body ++ ')' :: rest)).dropWhile
        (·.1 ≤ byteCount front + 2 + byteCount body) =
          indexed (byteCount front + 2 + byteCount body + 1) rest := by
      have hclose : byteCount front + 1 + '('.utf8Size + byteCount (body ++ [')']) =
          byteCount front + 2 + byteCount body + 1 := by
        rw [byteCount_append]
        rfl
      have hbehind := dropWhile_indexed hclose rest
      rwa [List.append_assoc] at hbehind
    simp only [Option.map_some, holeAt?_eq hraw, hskip]
    cases holeOf (start + byteCount front) body <;> rfl

/-- After an escape, the scan by offsets goes on behind the digits that were decoded. -/
theorem outlineAt?_escape {raw : String} {first c : Char} {digits cs : List Char}
    (hfirst : first ≠ '(') (hdecode : Escape.decode first (digits ++ cs) = (some c, cs))
    (start offset : Nat) :
    outlineAt? raw start (indexed offset ('\\' :: first :: (digits ++ cs))) =
      (outlineAt? raw start (indexed (offset + byteCount ('\\' :: first :: digits)) cs)).map
        (.cons (.char c)) := by
  rw [indexed_backslash, outlineAt?]
  · simp only [map_snd_indexed, hdecode, drop_indexed, byteCount_backslash, Nat.add_assoc]
  · simp [hfirst]

/-- The place of an invalid escape ends where the next character starts. -/
theorem outlineAt?_invalid {raw : String} {first : Char} {digits cs : List Char}
    (hfirst : first ≠ '(') (hdecode : Escape.decode first (digits ++ cs) = (none, cs))
    (start : Nat) {offset : Nat}
    (hsize : raw.utf8ByteSize = offset + byteCount ('\\' :: first :: digits) + byteCount cs) :
    outlineAt? raw start (indexed offset ('\\' :: first :: (digits ++ cs))) =
      some ⟨[], some ⟨.invalidEscape first,
        ⟨start + offset, start + (offset + byteCount ('\\' :: first :: digits))⟩⟩⟩ := by
  have hnext := head?_indexed (offset + byteCount ('\\' :: first :: digits)) cs
  rw [← hsize] at hnext
  rw [indexed_backslash, outlineAt?]
  · simp only [map_snd_indexed, hdecode, drop_indexed]
    rw [← hnext, byteCount_backslash]
    simp only [Nat.add_assoc]
  · simp [hfirst]

/-- The scan by offsets finds the outline, so it never takes a slice that does not exist. -/
theorem Outlines.outlineAt?_eq {raw : String} {start : Nat} {front cs : List Char} {o : Outline}
    (h : Outlines raw start front cs o) (hraw : raw.toList = front ++ cs) :
    outlineAt? raw start (indexed (byteCount front) cs) = some o := by
  induction h with
  | nil => rw [indexed, outlineAt?]
  | dangling => rw [indexed, indexed, outlineAt?]
  | @char front cs c o hc rest ih =>
    have hoffset : byteCount (front ++ [c]) = byteCount front + c.utf8Size := by
      rw [byteCount_append]
      rfl
    rw [indexed, outlineAt?_cons raw start _ hc, ← hoffset, ih (by simp [hraw])]
    rfl
  | unterminated hbody =>
    rw [outlineAt?_opening hraw, hbody]
  | faulty hbody hhole =>
    rw [outlineAt?_opening hraw, hbody]
    simp only [hhole]
  | @hole front body cs hole o hbody hhole rest ih =>
    rw [outlineAt?_opening hraw, hbody]
    simp only [hhole]
    rw [← byteCount_embed, ih (by simp [hraw])]
    rfl
  | escape hfirst hdecode rest ih =>
    rw [outlineAt?_escape hfirst hdecode, ← byteCount_append, ih (by simp [hraw])]
    rfl
  | @invalid front digits cs first hfirst hdecode =>
    have hsize : raw.utf8ByteSize =
        byteCount front + byteCount ('\\' :: first :: digits) + byteCount cs := by
      rw [← byteCount_toList, hraw, ← byteCount_append, ← byteCount_append]
      simp
    rw [outlineAt?_invalid hfirst hdecode start hsize, Nat.add_assoc]

/-! ## The outline decides what is read -/

section Follow

variable {m : Type → Type} [Monad m] [MonadExcept Fault m]

/-- The piece of a mark, for which the reader is run if the mark is an embed. -/
def Mark.piece (read : Reader m) : Mark → m Piece
  | char c => pure (.char c)
  | hole h => do
    let value ← read (String.ofList (Blank.trim h.source.toList)) h.place
    pure (.embed value h.verb h.span)

/-- The pieces of marks from left to right, and the fault after them. -/
def follow (read : Reader m) (fault : Option Fault) : List Mark → m (List Piece)
  | [] =>
    match fault with
    | some fault => throw fault
    | none => pure []
  | mark :: marks => do
    let piece ← mark.piece read
    let others ← follow read fault marks
    pure (piece :: others)

/-- The pieces of an outline. -/
def Outline.follow (read : Reader m) (o : Outline) : m (List Piece) :=
  Template.follow read o.fault o.marks

/-- The marks of an outline are followed from left to right. -/
theorem Outline.follow_cons (read : Reader m) (mark : Mark) (o : Outline) :
    (o.cons mark).follow read = (do
      let piece ← mark.piece read
      let others ← o.follow read
      pure (piece :: others)) := rfl

/-- The reader is run for the embed that is found in the body, unless there is a fault in it. -/
theorem embed_eq_holeOf (read : Reader m) (offset : Nat) (body : List Char) :
    embed read (offset + 2) body ⟨offset, offset + 2 + byteCount body + 1⟩ =
      match holeOf offset body with
      | .error fault => throw fault
      | .ok hole => (Mark.hole hole).piece read := by
  simp only [embed, holeOf]
  by_cases hempty : (Blank.trim (sourceAndVerb body).1).isEmpty = true
  · simp only [if_pos hempty]
  · simp only [if_neg hempty]
    cases ((sourceAndVerb body).2.map String.ofList).filter fun verb => !Verb.isVerb verb with
    | some verb => rfl
    | none => simp only [Mark.piece, String.toList_ofList]

theorem Outline.follow_char [LawfulMonad m] (read : Reader m) (c : Char) (o : Outline) :
    (o.cons (.char c)).follow read = (do
      let others ← o.follow read
      pure (.char c :: others)) := pure_bind _ _

end Follow

/-- Nothing is done after a fault. -/
theorem throw_bind {n : Type → Type} [Monad n] [LawfulMonad n] {α β : Type} (fault : Fault)
    (next : α → ExceptT Fault n β) :
    (throw fault >>= next) = (throw fault : ExceptT Fault n β) := by
  apply ExceptT.ext
  simp

/-- Splitting a text follows its outline, whatever the reader does. -/
theorem Outlines.pieces_eq {raw : String} {start : Nat} {front cs : List Char} {o : Outline}
    (h : Outlines raw start front cs o) {n : Type → Type} [Monad n] [LawfulMonad n]
    (read : Reader (ExceptT Fault n)) :
    pieces read (start + raw.utf8ByteSize) (start + byteCount front) cs = o.follow read := by
  induction h with
  | nil =>
    rw [pieces]
    rfl
  | dangling =>
    rw [pieces]
    rfl
  | @char front cs c o hc rest ih =>
    have hoffset : start + byteCount (front ++ [c]) = start + byteCount front + c.utf8Size := by
      rw [byteCount_append, ← Nat.add_assoc]
      rfl
    rw [pieces_cons read _ _ hc, ← hoffset, ih, Outline.follow_char, map_eq_pure_bind]
  | unterminated hbody =>
    rw [pieces]
    split
    · next hcut =>
      rw [hbody] at hcut
      cases hcut
    · rfl
  | faulty hbody hhole =>
    rw [pieces_closing hbody, embed_eq_holeOf, hhole]
    exact throw_bind _ _
  | @hole front body cs hole o hbody hhole rest ih =>
    have hoffset : start + byteCount (front ++ '\\' :: '(' :: (body ++ [')'])) =
        start + byteCount front + 2 + byteCount body + 1 := by
      rw [byteCount_embed]
      omega
    rw [pieces_closing hbody, embed_eq_holeOf, hhole, ← hoffset, ih]
    rfl
  | @escape front digits cs first c o hfirst hdecode rest ih =>
    have hoffset : start + byteCount (front ++ '\\' :: first :: digits) =
        start + byteCount front + 1 + first.utf8Size +
          (byteCount (digits ++ cs) - byteCount cs) := by
      rw [byteCount_append, byteCount_append, byteCount_backslash]
      omega
    rw [pieces]
    · simp only [hdecode]
      rw [← hoffset, ih, Outline.follow_char]
    · exact hfirst
  | @invalid front digits cs first hfirst hdecode =>
    have hoffset : start + byteCount front + byteCount ('\\' :: first :: digits) =
        start + byteCount front + 1 + first.utf8Size +
          (byteCount (digits ++ cs) - byteCount cs) := by
      rw [byteCount_append, byteCount_backslash]
      omega
    rw [pieces]
    · simp only [hdecode, ← hoffset]
      rfl
    · exact hfirst

end Template

end Desugar
