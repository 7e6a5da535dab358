import Desugar.Template.Split
import Desugar.Proofs.Template.Verb

/-!
# Written templates are split into their parts

A template is written from texts, which stand for themselves, and embeds `\(source)` or
`\(source:verb)`. Splitting what was written finds the same parts: the scan of the template, the
search for the end of an embed and the search for its colon agree on what stands in brackets and
literals.

- `Template.Part` are the parts of a template, with what makes them writable.
- `Template.pieces_part` follows the scan over one part, whatever stands after it.
- `Template.split_written`: a written template has the segments of its parts, in the monad of any
  reader.
- `Template.split_recording_written` tells the segments and the calls of a reader that never fails.
-/

namespace Desugar

/-! ## Bodies of embeds -/

/-- A balanced text and plain characters after it end where they were closed. -/
theorem Source.closing?_append (source : Source) {suffix : List Char}
    (hsuffix : ∀ c ∈ suffix, Nesting.isPlain c = true) (rest : List Char) :
    Nesting.closing? {} (source.text ++ suffix ++ ')' :: rest) =
      some (source.text ++ suffix, rest) := by
  -- the scan is at the top after the body and has not met a closing parenthesis there
  have hafter : (Nesting.outside 0).after (source.text ++ suffix) = .outside 0 := by
    rw [Nesting.after_append, Source.after_text, Nesting.after_of_isPlain hsuffix]
  have htops : ')' ∉ (Nesting.outside 0).tops (source.text ++ suffix) := by
    rw [Nesting.tops_append, Source.tops_text, Source.after_text, if_pos rfl, List.mem_append,
      not_or]
    refine ⟨source.closing_not_mem_surface, fun hmem => ?_⟩
    cases hsuffix ')' (Nesting.tops_subset _ _ hmem)
  change (Nesting.outside 0).closing? _ = _
  rw [Nesting.closing?_append htops, hafter]
  simp [Nesting.closing?, Nesting.isTop_outside]

/-- A balanced text may have colons of its own, but a verb after it has none, so the last one is
before the verb. -/
theorem Source.lastColon?_verb (source : Source) {verb : List Char}
    (hverb : Verb.isVerbChars verb = true) :
    Nesting.lastColon? {} (source.text ++ ':' :: verb) = some (source.text, verb) := by
  have hnone : Nesting.lastColon? (.outside 0) verb = none := by
    apply Nesting.lastColon?_eq_none
    intro hmem
    have hchar := Verb.isChar_of_mem hverb (Nesting.tops_subset _ _ hmem)
    exact (Verb.plain_of_isChar hchar).2.1 rfl
  have hcolon : Nesting.lastColon? (.outside 0) (':' :: verb) = some ([], verb) := by
    rw [Nesting.lastColon?, Nesting.next_of_isPlain rfl, hnone]
    rfl
  have hcut : Nesting.lastColon? {} (source.text ++ ':' :: verb) =
      some (source.text ++ [], verb) := by
    apply Nesting.lastColon?_append (n := .outside 0)
    rwa [Source.after_text]
  rw [hcut, List.append_nil]

/-- A verb after its colon has neither brackets nor quotes. -/
theorem Verb.suffix_plain {verb : List Char} (h : isVerbChars verb = true) :
    ∀ c ∈ ':' :: verb, Nesting.isPlain c = true := by
  intro c hc
  rcases List.mem_cons.mp hc with rfl | hc
  · rfl
  · exact (plain_of_isChar (isChar_of_mem h hc)).1

namespace Template

theorem byteCount_append (cs ds : List Char) :
    byteCount (cs ++ ds) = byteCount cs + byteCount ds := by
  induction cs with
  | nil => simp [byteCount]
  | cons c cs ih => simp [byteCount, ih, Nat.add_assoc]

section Bodies

variable {m : Type → Type} [Monad m] [MonadExcept Fault m]

/-- An embed that embeds something and whose verb is a verb stands for what the reader reads. -/
theorem embed_eq_read {body source : List Char} {verb : Option (List Char)}
    (hcut : sourceAndVerb body = (source, verb)) (hsource : ∃ c ∈ source, Blank.isBlank c = false)
    (hverb : ∀ v ∈ verb, Verb.isVerbChars v = true) (read : Reader m) (offset : Nat)
    (span : Span) :
    embed read offset body span = (do
      let value ← read (String.ofList (Blank.trim source)) ⟨offset, offset + byteCount source⟩
      pure (.embed value (verb.map String.ofList) span)) := by
  have hempty : (Blank.trim source).isEmpty = false := by
    obtain ⟨c, hc, hblank⟩ := hsource
    cases htrim : Blank.trim source with
    | nil => exact absurd (htrim ▸ Blank.mem_trim hc hblank) List.not_mem_nil
    | cons => rfl
  have hfilter : (verb.map String.ofList).filter (fun v => !Verb.isVerb v) = none := by
    rw [Option.filter_eq_none_iff]
    intro v hv
    obtain ⟨cs, hcs, rfl⟩ := Option.map_eq_some_iff.mp hv
    simp [Verb.isVerb, hverb cs hcs]
  simp only [embed, hcut, hempty, hfilter]
  rfl

/-- The scan of a text that starts with an embed. -/
theorem pieces_closing {body rest : List Char}
    (h : Nesting.closing? {} (body ++ ')' :: rest) = some (body, rest)) (read : Reader m)
    (stop offset : Nat) :
    pieces read stop offset ('\\' :: '(' :: (body ++ ')' :: rest)) = (do
      let piece ← embed read (offset + 2) body ⟨offset, offset + 2 + byteCount body + 1⟩
      let others ← pieces read stop (offset + 2 + byteCount body + 1) rest
      pure (piece :: others)) := by
  rw [pieces]
  split
  · next hcut =>
    rw [h] at hcut
    cases hcut
    rfl
  · next hcut =>
    rw [h] at hcut
    cases hcut

end Bodies

/-! ## Parts of templates -/

/-- An embed that can be written: it embeds something, its verb is a verb, and it has no colon where
its verb would start. -/
structure Embed where
  source : Source
  verb : Option String
  not_blank : ∃ c ∈ source.text, Blank.isBlank c = false
  isVerb_verb : ∀ v ∈ verb, Verb.isVerb v = true
  head_verb : ∀ v ∈ verb, v.toList.head? ≠ some ' '
  no_colon : verb = none → ':' ∉ source.surface

/-- A call of a reader: the source and its place. -/
abbrev Call := String × Span

namespace Embed

/-- The verb as it is written, with the colon before it. -/
def suffix (e : Embed) : List Char :=
  match e.verb with
  | some v => ':' :: v.toList
  | none => []

/-- What stands between the parentheses. -/
def body (e : Embed) : List Char := e.source.text ++ e.suffix

/-- The embed as it is written. -/
def text (e : Embed) : List Char := '\\' :: '(' :: (e.body ++ [')'])

/-- The call of the reader for an embed at an offset. -/
def call (e : Embed) (offset : Nat) : Call :=
  (String.ofList (Blank.trim e.source.text),
    ⟨offset + 2, offset + 2 + byteCount e.source.text⟩)

/-- The place of an embed at an offset. -/
def span (e : Embed) (offset : Nat) : Span := ⟨offset, offset + byteCount e.text⟩

/-- An embed takes three bytes more than its body. -/
theorem byteCount_text (e : Embed) : byteCount e.text = byteCount e.body + 3 := by
  have hbackslash : '\\'.utf8Size = 1 := rfl
  have hleft : '('.utf8Size = 1 := rfl
  have hright : ')'.utf8Size = 1 := rfl
  simp only [text, byteCount, byteCount_append, hbackslash, hleft, hright]
  omega

/-- The suffix of an embed has neither brackets nor quotes. -/
theorem suffix_plain (e : Embed) : ∀ c ∈ e.suffix, Nesting.isPlain c = true := by
  unfold suffix
  split
  · next v hv => exact Verb.suffix_plain (e.isVerb_verb v hv)
  · intro c hc
    cases hc

/-- The body of an embed ends where the embed was closed. -/
theorem closing?_body (e : Embed) (rest : List Char) :
    Nesting.closing? {} (e.body ++ ')' :: rest) = some (e.body, rest) :=
  e.source.closing?_append e.suffix_plain rest

/-- The body of an embed is cut at the colon before the verb. -/
theorem sourceAndVerb_body (e : Embed) :
    sourceAndVerb e.body = (e.source.text, e.verb.map String.toList) := by
  cases hverb : e.verb with
  | none =>
    have hbody : e.body = e.source.text := by simp [body, suffix, hverb]
    have htops : ':' ∉ (Nesting.outside 0).tops e.body := by
      rw [hbody, Source.tops_text, if_pos rfl]
      exact e.no_colon hverb
    have hcut : Nesting.lastColon? {} e.body = none := Nesting.lastColon?_eq_none htops
    rw [sourceAndVerb, hcut, hbody]
    rfl
  | some v =>
    have hv := e.isVerb_verb v hverb
    have hbody : e.body = e.source.text ++ ':' :: v.toList := by simp [body, suffix, hverb]
    rw [sourceAndVerb, hbody, Source.lastColon?_verb e.source hv]
    simp [Verb.trim_eq_self hv (e.head_verb v hverb)]

variable {m : Type → Type} [Monad m] [MonadExcept Fault m]

/-- The reader is called for an embed, and the embed stands for what it reads. -/
theorem embed_body (e : Embed) (read : Reader m) (offset : Nat) (span : Span) :
    embed read (offset + 2) e.body span = (do
      let value ← read (e.call offset).1 (e.call offset).2
      pure (.embed value e.verb span)) := by
  have hverb : ∀ v ∈ e.verb.map String.toList, Verb.isVerbChars v = true := by
    intro cs hcs
    obtain ⟨v, hv, rfl⟩ := Option.map_eq_some_iff.mp hcs
    exact e.isVerb_verb v hv
  have hmap : (e.verb.map String.toList).map String.ofList = e.verb := by
    cases e.verb <;> simp
  rw [embed_eq_read e.sourceAndVerb_body e.not_blank hverb, hmap]
  rfl

end Embed

/-- What a template is written from: texts that stand for themselves, and embeds. -/
inductive Part where
  | text (value : String) (plain : '\\' ∉ value.toList)
  | embed (e : Embed)

namespace Part

/-- A part as it is written. -/
def written : Part → List Char
  | text value _ => value.toList
  | embed e => e.text

/-- Parts that stand one after the other, with their offsets. -/
def located (offset : Nat) : List Part → List (Nat × Part)
  | [] => []
  | part :: rest => (offset, part) :: located (offset + byteCount part.written) rest

end Part

/-! ## The scan -/

section Scan

variable {m : Type → Type} [Monad m]

/-- The segment of a part at an offset, for which the reader is run if the part is an embed. -/
def Part.segment (read : Reader m) (offset : Nat) : Part → m Segment
  | text value _ => pure (.text value)
  | embed e => do
    let value ← read (e.call offset).1 (e.call offset).2
    pure (.embed value e.verb (e.span offset))

/-- The segments of located parts. -/
def Part.segments (read : Reader m) (parts : List (Nat × Part)) : m (List Segment) :=
  parts.mapM fun part => part.2.segment read part.1

/-- The pieces of a segment. -/
def segmentPieces : Segment → List Piece
  | .text value => value.toList.map .char
  | .embed value verb span => [.embed value verb span]

variable [LawfulMonad m]

theorem Part.segments_cons (read : Reader m) (offset : Nat) (part : Part)
    (parts : List (Nat × Part)) : segments read ((offset, part) :: parts) = (do
      let segment ← part.segment read offset
      (segment :: ·) <$> segments read parts) := by
  simp [segments]

variable [MonadExcept Fault m]

/-- A character other than a backslash is a piece. -/
theorem pieces_cons (read : Reader m) (stop offset : Nat) {c : Char} (hc : c ≠ '\\')
    (cs : List Char) : pieces read stop offset (c :: cs) =
      (.char c :: ·) <$> pieces read stop (offset + c.utf8Size) cs := by
  rw [pieces, map_eq_pure_bind] <;> intros <;> contradiction

/-- A text without backslashes stands for its characters. -/
theorem pieces_text (read : Reader m) (stop offset : Nat) {cs : List Char} (h : '\\' ∉ cs)
    (rest : List Char) : pieces read stop offset (cs ++ rest) =
      (cs.map .char ++ ·) <$> pieces read stop (offset + byteCount cs) rest := by
  induction cs generalizing offset with
  | nil => simp [byteCount]
  | cons c cs ih =>
    obtain ⟨hc, hcs⟩ := not_or.mp (mt List.mem_cons.mpr h)
    rw [List.cons_append, pieces_cons read stop offset (Ne.symm hc), ih _ hcs, byteCount,
      Nat.add_assoc, Functor.map_map]
    rfl

/-- A written embed is read by one call of the reader. -/
theorem pieces_embed (read : Reader m) (stop offset : Nat) (e : Embed) (rest : List Char) :
    pieces read stop offset (e.text ++ rest) = (do
      let value ← read (e.call offset).1 (e.call offset).2
      let others ← pieces read stop (offset + byteCount e.text) rest
      pure (.embed value e.verb (e.span offset) :: others)) := by
  have hnext : offset + 2 + byteCount e.body + 1 = offset + byteCount e.text := by
    rw [e.byteCount_text]
    omega
  have htext : e.text ++ rest = '\\' :: '(' :: (e.body ++ ')' :: rest) := by simp [Embed.text]
  rw [htext, pieces_closing (e.closing?_body rest), hnext]
  simp [Embed.embed_body, Embed.span]

/-- The scan of one part, whatever follows it. -/
theorem pieces_part (read : Reader m) (stop offset : Nat) (part : Part) (rest : List Char) :
    pieces read stop offset (part.written ++ rest) = (do
      let segment ← part.segment read offset
      (segmentPieces segment ++ ·) <$>
        pieces read stop (offset + byteCount part.written) rest) := by
  cases part with
  | text value plain =>
    rw [Part.written, pieces_text read stop offset plain, Part.segment, pure_bind, segmentPieces]
  | embed e => simp [Part.written, Part.segment, pieces_embed, segmentPieces]

/-- What is written from parts is split into the pieces of their segments. -/
theorem pieces_written (read : Reader m) (stop offset : Nat) (parts : List Part) :
    pieces read stop offset (parts.flatMap Part.written) =
      List.flatMap segmentPieces <$> Part.segments read (Part.located offset parts) := by
  induction parts generalizing offset with
  | nil => simp [pieces, Part.segments, Part.located]
  | cons part parts ih => simp [pieces_part, Part.segments_cons, Part.located, ih]

end Scan

/-! ## Joined texts -/

/-- Adds a text in front of segments, of which the first may go on with it. -/
def consText (value : String) (segments : List Segment) : List Segment :=
  if value = "" then segments
  else
    match segments with
    | .text value' :: rest => .text (value ++ value') :: rest
    | segments => .text value :: segments

/-- Joins neighbouring texts and leaves out empty ones. -/
def join : List Segment → List Segment
  | [] => []
  | .text value :: rest => consText value (join rest)
  | .embed value verb span :: rest => .embed value verb span :: join rest

theorem consChar_consText (c : Char) (value : String) (segments : List Segment) :
    consChar c (consText value segments) = consText (String.singleton c ++ value) segments := by
  have hne : String.singleton c ++ value ≠ "" := by simp
  -- an empty text has added nothing, so the character may start a text or join the one after it
  by_cases hvalue : value = ""
  · subst hvalue
    simp only [consText, if_pos, if_neg hne]
    cases segments with
    | nil => simp [consChar]
    | cons segment rest => cases segment <;> simp [consChar]
  · simp only [consText, if_neg hvalue, if_neg hne]
    cases segments with
    | nil => rfl
    | cons segment rest => cases segment <;> simp [consChar, String.append_assoc]

/-- Characters in a row are gathered as one text. -/
theorem gather_chars (cs : List Char) (rest : List Piece) :
    gather (cs.map .char ++ rest) = consText (String.ofList cs) (gather rest) := by
  induction cs with
  | nil => rfl
  | cons c cs ih =>
    rw [List.map_cons, List.cons_append, gather, ih, consChar_consText]
    congr 1
    simp

/-- Joining the characters of segments joins their texts. -/
theorem gather_flatMap (segments : List Segment) :
    gather (segments.flatMap segmentPieces) = join segments := by
  induction segments with
  | nil => rfl
  | cons segment segments ih =>
    cases segment with
    | text value => simp [segmentPieces, gather_chars, ih, join]
    | embed value verb span => simp [segmentPieces, gather, ih, join]

/-! ## Split templates -/

/-- A written template has the segments of its parts. The reader is run once for each embed, from
left to right, and its failures and effects are those of these runs. -/
theorem split_written {m : Type → Type} [Monad m] [MonadExcept Fault m] [LawfulMonad m]
    (read : Reader m) (parts : List Part) (span : Span) :
    split read (String.ofList (parts.flatMap Part.written)) span =
      join <$> Part.segments read (Part.located span.start parts) := by
  simp [split, pieces_written, gather_flatMap]

/-- A reader that never fails and notes its calls. What it reads may depend on the calls before. -/
def recording (parse : List Call → Call → Expr) : Reader (StateT (List Call) (Except Fault)) :=
  fun source place => do
    let calls ← get
    set (calls ++ [(source, place)])
    pure (parse calls (source, place))

namespace Part

/-- The calls of the reader for a part at an offset. -/
def calls (offset : Nat) : Part → List Call
  | text _ _ => []
  | embed e => [e.call offset]

/-- The segment of a part at an offset after earlier calls of the reader. -/
def answer (parse : List Call → Call → Expr) (earlier : List Call) (offset : Nat) : Part → Segment
  | text value _ => .text value
  | embed e => .embed (parse earlier (e.call offset)) e.verb (e.span offset)

/-- The calls of the reader for located parts. -/
def allCalls (parts : List (Nat × Part)) : List Call :=
  parts.flatMap fun part => part.2.calls part.1

/-- The segments of located parts after earlier calls of the reader. -/
def answers (parse : List Call → Call → Expr) (earlier : List Call) :
    List (Nat × Part) → List Segment
  | [] => []
  | (offset, part) :: rest =>
    part.answer parse earlier offset :: answers parse (earlier ++ part.calls offset) rest

/-- A part runs the reader once if it is an embed, and not at all if it is a text. -/
theorem run_segment (parse : List Call → Call → Expr) (earlier : List Call) (offset : Nat)
    (part : Part) : (part.segment (recording parse) offset).run earlier =
      .ok (part.answer parse earlier offset, earlier ++ part.calls offset) := by
  cases part with
  | text value plain => exact congrArg (fun calls => Except.ok (_, calls)) (List.append_nil _).symm
  | embed e => rfl

/-- Parts run the reader from left to right. -/
theorem run_segments (parse : List Call → Call → Expr) (earlier : List Call)
    (parts : List (Nat × Part)) : (segments (recording parse) parts).run earlier =
      .ok (answers parse earlier parts, earlier ++ allCalls parts) := by
  induction parts generalizing earlier with
  | nil => exact congrArg (fun calls => Except.ok ([], calls)) (List.append_nil earlier).symm
  | cons part parts ih =>
    obtain ⟨offset, part⟩ := part
    rw [segments_cons, StateT.run_bind, run_segment]
    change ((part.answer parse earlier offset :: ·) <$> segments (recording parse) parts).run
      (earlier ++ part.calls offset) = _
    rw [StateT.run_map, ih, List.append_assoc]
    rfl

end Part

/-- Splitting a written template recovers its parts, with neighbouring texts joined and empty ones
left out. Each embed is read exactly once, from left to right, without the blanks around it. -/
theorem split_recording_written (parse : List Call → Call → Expr) (parts : List Part)
    (span : Span) :
    (split (recording parse) (String.ofList (parts.flatMap Part.written)) span).run [] =
      .ok (join (Part.answers parse [] (Part.located span.start parts)),
        Part.allCalls (Part.located span.start parts)) := by
  rw [split_written, StateT.run_map, Part.run_segments]
  rfl

/-- The template `pick \(m["a\":)"]:q)!`, where the colon before the verb is not the only one. -/
def pick : List Part :=
  [.text "pick " (by decide),
    .embed
      { source := .char 'm' rfl
          (.group .square
            (.literal .double
              [.char 'a' (by decide) (by decide), .escape '"' (by decide),
                .char ':' (by decide) (by decide), .char ')' (by decide) (by decide)] .nil) .nil)
        verb := some "q"
        not_blank := ⟨'m', by decide, by decide⟩
        isVerb_verb := by decide
        head_verb := by decide
        no_colon := by decide },
    .text "" (by decide), .text "!" (by decide)]

/-- The template `pick` has its embed read once, up to the colon before the verb. -/
theorem split_recording_written_pick :
    (split (recording fun _ call => .ident call.1 call.2) "pick \\(m[\"a\\\":)\"]:q)!"
        ⟨10, 31⟩).run [] =
      .ok ([.text "pick ",
          .embed (.ident "m[\"a\\\":)\"]" ⟨17, 27⟩) (some "q") ⟨15, 30⟩, .text "!"],
        [("m[\"a\\\":)\"]", ⟨17, 27⟩)]) := by
  have hwritten : String.ofList (pick.flatMap Part.written) = "pick \\(m[\"a\\\":)\"]:q)!" := by
    decide
  rw [← hwritten, split_recording_written]
  rfl

end Template

end Desugar
