import Desugar.Proofs.Template.Offsets

/-!
# The places that splitting reports

The segments of a template, the calls of the reader and the faults of the splitter all name places
in the text of the template. These places lie in the text, begin and end between characters and do
not overlap, whatever the text holds and whatever the reader answers.

- `Outline.IsSound` says what the places of an outline satisfy, and `Outlines.isSound` that every
  outline satisfies it.
- `asking` is a reader that may fail and whose answers depend on its calls so far, and `asked` tells
  how a run with it ends and which calls it makes.
- `split_places` says that splitting takes existing slices only, and that what it returns, hands to
  the reader or reports are the places of the outline.
-/

namespace Desugar

namespace Template

/-! ## Sound places -/

/-- The place lies in a text that starts at `start`, and is not empty. -/
structure InText (raw : String) (start : Nat) (place : Span) : Prop where
  start_le : start ≤ place.start
  start_lt_stop : place.start < place.stop
  stop_le : place.stop ≤ start + raw.utf8ByteSize

/-- The part of a text at a place. -/
def covered (raw : String) (start : Nat) (place : Span) : Option String :=
  slice? raw (place.start - start) (place.stop - start)

/-- What stands between the source of an embed and its closing parenthesis: nothing, or a colon and
the verb with blanks around it. -/
inductive Suffix : Option String → String → Prop where
  | none : Suffix none ""
  | verb (written : String) :
      Suffix (some (String.ofList (Blank.trim written.toList))) (":" ++ written)

/-- An embed is found where it stands: its place covers an opening, the source, a suffix with the
verb and the closing parenthesis, and the place of the source is strictly inside and covers the
source. -/
structure Hole.IsSound (h : Hole) (raw : String) (start : Nat) : Prop where
  inText : InText raw start h.span
  text : ∃ suffix, Suffix h.verb suffix ∧
    covered raw start h.span = some ("\\(" ++ h.source ++ suffix ++ ")")
  place_start : h.place.start = h.span.start + 2
  place_stop : h.place.stop < h.span.stop
  source : covered raw start h.place = some h.source

/-- The embed of a mark. -/
def Mark.hole? : Mark → Option Hole
  | char _ => none
  | hole h => some h

/-- The embeds of an outline. -/
def Outline.holes (o : Outline) : List Hole := o.marks.filterMap Mark.hole?

/-- The embeds of an outline are found where they stand, one after the other, and the fault that
ends it is found in the text. -/
structure Outline.IsSound (o : Outline) (raw : String) (start : Nat) : Prop where
  holes : ∀ h ∈ o.holes, h.IsSound raw start
  ordered : o.holes.Pairwise fun h k => h.span.start < k.span.start ∧ h.span.stop ≤ k.span.start
  fault : ∀ fault ∈ o.fault, InText raw start fault.span

/-! ## Embeds -/

/-- The source of a body is followed by the suffix with its verb. -/
theorem exists_suffix (body : List Char) : ∃ suffix, body = (sourceAndVerb body).1 ++ suffix ∧
    Suffix ((sourceAndVerb body).2.map String.ofList) (String.ofList suffix) := by
  unfold sourceAndVerb
  split
  · next source verb hcut =>
    refine ⟨':' :: verb, Nesting.append_of_lastColon? hcut, ?_⟩
    have hwritten : String.ofList (':' :: verb) = ":" ++ String.ofList verb := by
      rw [← String.toList_inj]
      simp
    have hsuffix := Suffix.verb (String.ofList verb)
    rw [String.toList_ofList, ← hwritten] at hsuffix
    exact hsuffix
  · exact ⟨[], (List.append_nil _).symm, .none⟩

/-- A fault in an embed is reported for the whole embed. -/
theorem span_of_holeOf_error {offset : Nat} {body : List Char} {fault : Fault}
    (h : holeOf offset body = .error fault) :
    fault.span = ⟨offset, offset + 2 + byteCount body + 1⟩ := by
  simp only [holeOf] at h
  split at h
  · cases h
    rfl
  · split at h
    · cases h
      rfl
    · cases h

/-- The source of an embed starts behind the opening parenthesis, and the place of the embed covers
all of it. -/
theorem eq_of_holeOf_ok {offset : Nat} {body : List Char} {hole : Hole}
    (h : holeOf offset body = .ok hole) :
    hole = ⟨String.ofList (sourceAndVerb body).1, (sourceAndVerb body).2.map String.ofList,
      ⟨offset + 2, offset + 2 + byteCount (sourceAndVerb body).1⟩,
      ⟨offset, offset + 2 + byteCount body + 1⟩⟩ := by
  simp only [holeOf] at h
  split at h
  · cases h
  · split at h
    · cases h
    · cases h
      rfl

/-- The size of a text is counted around an embed in it. -/
theorem size_embed {raw : String} {front body cs : List Char}
    (hraw : raw.toList = front ++ '\\' :: '(' :: (body ++ ')' :: cs)) :
    raw.utf8ByteSize = byteCount front + 2 + byteCount body + 1 + byteCount cs := by
  have hparts : raw.toList = (front ++ '\\' :: '(' :: (body ++ [')'])) ++ cs := by simp [hraw]
  rw [← byteCount_toList, hparts, byteCount_append, byteCount_embed]

/-- A place between two ends of a text covers what stands there. -/
theorem covered_of_append {raw : String} {front middle back : List Char}
    (hraw : raw.toList = front ++ (middle ++ back)) (start : Nat) {place : Span}
    (hstart : place.start = start + byteCount front)
    (hstop : place.stop = start + byteCount front + byteCount middle) :
    covered raw start place = some (String.ofList middle) := by
  have hfrom : place.start - start = byteCount front := by omega
  have hto : place.stop - start = byteCount front + byteCount middle := by omega
  rw [covered, hfrom, hto]
  exact slice?_of_append hraw

/-- The embed that is found in a body is found where it stands. -/
theorem isSound_of_holeOf {raw : String} {start : Nat} {front body cs : List Char} {hole : Hole}
    (hraw : raw.toList = front ++ '\\' :: '(' :: (body ++ ')' :: cs))
    (hhole : holeOf (start + byteCount front) body = .ok hole) : hole.IsSound raw start := by
  obtain ⟨suffix, hbody, hsuffix⟩ := exists_suffix body
  have hsize := size_embed hraw
  have hcount : byteCount body = byteCount (sourceAndVerb body).1 + byteCount suffix := by
    rw [← byteCount_append, ← hbody]
  obtain rfl := eq_of_holeOf_ok hhole
  constructor
  · constructor
    · show start ≤ start + byteCount front
      omega
    · show start + byteCount front < start + byteCount front + 2 + byteCount body + 1
      omega
    · show start + byteCount front + 2 + byteCount body + 1 ≤ start + raw.utf8ByteSize
      omega
  · have hembed : raw.toList = front ++ (('\\' :: '(' :: (body ++ [')'])) ++ cs) := by simp [hraw]
    have htext : "\\(" ++ String.ofList (sourceAndVerb body).1 ++ String.ofList suffix ++ ")" =
        String.ofList ('\\' :: '(' :: (body ++ [')'])) := by
      rw [← String.toList_inj]
      conv => rhs; rw [hbody]
      simp
    have hlength := byteCount_embed front body
    rw [byteCount_append] at hlength
    refine ⟨String.ofList suffix, hsuffix, ?_⟩
    rw [htext]
    apply covered_of_append hembed start rfl
    show start + byteCount front + 2 + byteCount body + 1 = _
    omega
  · rfl
  · show start + byteCount front + 2 + byteCount (sourceAndVerb body).1 <
      start + byteCount front + 2 + byteCount body + 1
    omega
  · have hsource : raw.toList = (front ++ ['\\', '(']) ++
        ((sourceAndVerb body).1 ++ (suffix ++ ')' :: cs)) := by
      rw [hraw]
      conv => lhs; rw [hbody]
      simp
    have hopening := byteCount_opening front
    apply covered_of_append hsource start
    · show start + byteCount front + 2 = _
      omega
    · show start + byteCount front + 2 + byteCount (sourceAndVerb body).1 = _
      omega

/-! ## Outlines -/

/-- Every embed of an outline is found in a body, behind the characters in front. -/
theorem Outlines.exists_body {raw : String} {start : Nat} {front cs : List Char} {o : Outline}
    (h : Outlines raw start front cs o) (hraw : raw.toList = front ++ cs) {hole : Hole}
    (hmem : hole ∈ o.holes) : ∃ before body behind,
      raw.toList = before ++ '\\' :: '(' :: (body ++ ')' :: behind) ∧
      holeOf (start + byteCount before) body = .ok hole ∧ byteCount front ≤ byteCount before := by
  induction h with
  | nil => cases hmem
  | dangling => cases hmem
  | char hc rest ih =>
    obtain ⟨before, body, behind, hparts, hbody, hle⟩ := ih (by simp [hraw]) hmem
    rw [byteCount_append] at hle
    exact ⟨before, body, behind, hparts, hbody, by omega⟩
  | unterminated hbody => cases hmem
  | faulty hbody hhole => cases hmem
  | @hole front body cs found o hbody hhole rest ih =>
    rcases List.mem_cons.mp hmem with rfl | hmem
    · exact ⟨front, body, cs, hraw, hhole, Nat.le_refl _⟩
    · obtain ⟨before, body, behind, hparts, hbody, hle⟩ := ih (by simp [hraw]) hmem
      rw [byteCount_append] at hle
      exact ⟨before, body, behind, hparts, hbody, by omega⟩
  | escape hfirst hdecode rest ih =>
    obtain ⟨before, body, behind, hparts, hbody, hle⟩ := ih (by simp [hraw]) hmem
    rw [byteCount_append] at hle
    exact ⟨before, body, behind, hparts, hbody, by omega⟩
  | invalid hfirst hdecode => cases hmem

/-- The embeds of an outline stand one after the other. -/
theorem Outlines.ordered {raw : String} {start : Nat} {front cs : List Char} {o : Outline}
    (h : Outlines raw start front cs o) (hraw : raw.toList = front ++ cs) :
    o.holes.Pairwise fun h k => h.span.start < k.span.start ∧ h.span.stop ≤ k.span.start := by
  induction h with
  | nil => exact List.Pairwise.nil
  | dangling => exact List.Pairwise.nil
  | char hc rest ih => exact ih (by simp [hraw])
  | unterminated hbody => exact List.Pairwise.nil
  | faulty hbody hhole => exact List.Pairwise.nil
  | @hole front body cs hole o hbody hhole rest ih =>
    have hrest : raw.toList = front ++ '\\' :: '(' :: (body ++ [')']) ++ cs := by simp [hraw]
    refine List.pairwise_cons.mpr ⟨fun later hlater => ?_, ih hrest⟩
    -- a later embed stands behind the closing parenthesis of this one
    obtain ⟨before, body', behind, -, hbody', hle⟩ := rest.exists_body hrest hlater
    rw [byteCount_embed] at hle
    rw [eq_of_holeOf_ok hhole, eq_of_holeOf_ok hbody']
    show start + byteCount front < start + byteCount before ∧
      start + byteCount front + 2 + byteCount body + 1 ≤ start + byteCount before
    constructor <;> omega
  | escape hfirst hdecode rest ih => exact ih (by simp [hraw])
  | invalid hfirst hdecode => exact List.Pairwise.nil

/-- A place between two ends of a text lies in the text, unless it is empty. -/
theorem inText_of_append {raw : String} {front back : List Char} {c : Char} {middle : List Char}
    (hraw : raw.toList = front ++ (c :: middle ++ back)) (start : Nat) :
    InText raw start
      ⟨start + byteCount front, start + byteCount front + byteCount (c :: middle)⟩ := by
  have hsize : raw.utf8ByteSize = byteCount front + (byteCount (c :: middle) + byteCount back) := by
    rw [← byteCount_toList, hraw, byteCount_append, byteCount_append]
  have hpos : 0 < byteCount (c :: middle) := by
    have hc := c.utf8Size_pos
    rw [byteCount]
    omega
  constructor
  · show start ≤ start + byteCount front
    omega
  · show start + byteCount front < start + byteCount front + byteCount (c :: middle)
    omega
  · show start + byteCount front + byteCount (c :: middle) ≤ start + raw.utf8ByteSize
    omega

/-- The fault that ends an outline is found in the text. -/
theorem Outlines.inText_fault {raw : String} {start : Nat} {front cs : List Char} {o : Outline}
    (h : Outlines raw start front cs o) (hraw : raw.toList = front ++ cs) {fault : Fault}
    (hfault : fault ∈ o.fault) : InText raw start fault.span := by
  induction h with
  | nil => cases hfault
  | @dangling front =>
    cases hfault
    have hlast : raw.toList = front ++ (['\\'] ++ []) := hraw
    exact inText_of_append hlast start
  | char hc rest ih => exact ih (by simp [hraw]) hfault
  | @unterminated front cs hbody =>
    cases hfault
    have hrest : raw.toList = front ++ ('\\' :: '(' :: cs ++ []) := by simp [hraw]
    have hstop : start + raw.utf8ByteSize =
        start + byteCount front + byteCount ('\\' :: '(' :: cs) := by
      rw [← byteCount_toList, hraw, byteCount_append, Nat.add_assoc]
    rw [hstop]
    exact inText_of_append hrest start
  | @faulty front body cs fault hbody hhole =>
    cases hfault
    have hembed : raw.toList = front ++ ('\\' :: '(' :: (body ++ [')']) ++ cs) := by simp [hraw]
    have hlength := byteCount_embed front body
    rw [byteCount_append] at hlength
    have hstop : start + byteCount front + 2 + byteCount body + 1 =
        start + byteCount front + byteCount ('\\' :: '(' :: (body ++ [')'])) := by omega
    rw [span_of_holeOf_error hhole, hstop]
    exact inText_of_append hembed start
  | hole hbody hhole rest ih => exact ih (by simp [hraw]) hfault
  | escape hfirst hdecode rest ih => exact ih (by simp [hraw]) hfault
  | @invalid front digits cs first hfirst hdecode =>
    cases hfault
    have hescape : raw.toList = front ++ ('\\' :: first :: digits ++ cs) := by simp [hraw]
    exact inText_of_append hescape start

/-- The places of the outline of a text are sound. -/
theorem Outlines.isSound {raw : String} {start : Nat} {o : Outline}
    (h : Outlines raw start [] raw.toList o) : o.IsSound raw start := by
  constructor
  · intro hole hmem
    obtain ⟨before, body, behind, hraw, hhole, -⟩ := h.exists_body rfl hmem
    exact isSound_of_holeOf hraw hhole
  · exact h.ordered rfl
  · intro fault hfault
    exact h.inText_fault rfl hfault

/-! ## Runs -/

/-- Splitting with a reader that has a state and may fail. A failure of the reader is kept apart
from a fault of the splitter. -/
abbrev Asking (ε : Type) := ExceptT Fault (ExceptT ε (StateM (List Call)))

/-- A reader that answers by its calls so far. -/
def asking {ε : Type} (parse : List Call → Call → Except ε Expr) : Reader (Asking ε) :=
  fun source place => ExceptT.mk (ExceptT.mk fun calls =>
    ((parse calls (source, place)).map .ok, calls ++ [(source, place)]))

/-- How a run ends that was preceded by calls of the reader, and all the calls that were made. -/
def asked {ε α : Type} (run : Asking ε α) (calls : List Call) :
    Except ε (Except Fault α) × List Call := run.run.run calls

/-- The call of the reader for an embed. -/
def Hole.call (h : Hole) : Call := (String.ofList (Blank.trim h.source.toList), h.place)

/-- The verb and the place of an embed that has been read. -/
def Piece.verbAndSpan? : Piece → Option (Option String × Span)
  | char _ => none
  | embed _ verb span => some (verb, span)

/-- How a run over embeds ends that has called the reader for the first of them. Either the reader
fails at the last call, or it is called for all embeds, and then the run ends with the fault behind
them or with what they stand for. -/
inductive Ending {ε α : Type} (sites : α → List (Option String × Span)) (holes : List Hole)
    (fault : Option Fault) : Except ε (Except Fault α) → List Hole → Prop where
  | failed {first : List Hole} (hfirst : first <+: holes) (failure : ε) :
      Ending sites holes fault (.error failure) first
  | faulty {reported : Fault} (hfault : fault = some reported) :
      Ending sites holes fault (.ok (.error reported)) holes
  | found {a : α} (hfault : fault = none)
      (hsites : sites a = holes.map fun h => (h.verb, h.span)) :
      Ending sites holes fault (.ok (.ok a)) holes

section Asking

variable {ε α β : Type}

/-- A failure of the reader and a fault both end a run, with the calls that were made until then. -/
theorem asked_bind (run : Asking ε α) (next : α → Asking ε β) (calls : List Call) :
    asked (run >>= next) calls =
      match asked run calls with
      | (.ok (.ok a), later) => asked (next a) later
      | (.ok (.error fault), later) => (.ok (.error fault), later)
      | (.error failure, later) => (.error failure, later) := by
  simp only [asked, ExceptT.run_bind]
  simp only [bind, StateT.bind, ExceptT.run]
  rcases run calls with ⟨failure | fault | a, later⟩
  · rfl
  · rfl
  · rfl

/-- A function of the result changes nothing in the calls. -/
theorem asked_bind_pure (run : Asking ε α) (f : α → β) (calls : List Call) :
    asked (do let a ← run; pure (f a)) calls =
      ((asked run calls).1.map (Except.map f), (asked run calls).2) := by
  rw [asked_bind]
  rcases asked run calls with ⟨failure | fault | a, later⟩
  · rfl
  · rfl
  · rfl

/-- How a run ends does not depend on what is made of its result. -/
theorem Ending.map {sites : α → List (Option String × Span)}
    {sites' : β → List (Option String × Span)} {holes first : List Hole} {fault : Option Fault}
    {result : Except ε (Except Fault α)} (h : Ending sites holes fault result first) {f : α → β}
    (hf : ∀ a, sites' (f a) = sites a) :
    Ending sites' holes fault (result.map (Except.map f)) first := by
  cases h with
  | failed hfirst failure => exact .failed hfirst failure
  | faulty hfault => exact .faulty hfault
  | @found a hfault hsites => exact .found hfault ((hf a).trans hsites)

/-- One more embed in front. -/
theorem Ending.cons {sites : α → List (Option String × Span)}
    {sites' : β → List (Option String × Span)} {holes first : List Hole} {fault : Option Fault}
    {result : Except ε (Except Fault α)} (h : Ending sites holes fault result first) {hole : Hole}
    {f : α → β} (hf : ∀ a, sites' (f a) = (hole.verb, hole.span) :: sites a) :
    Ending sites' (hole :: holes) fault (result.map (Except.map f)) (hole :: first) := by
  cases h with
  | failed hfirst failure => exact .failed (List.cons_prefix_cons.mpr ⟨rfl, hfirst⟩) failure
  | faulty hfault => exact .faulty hfault
  | @found a hfault hsites =>
    refine .found hfault ?_
    rw [hf, hsites, List.map_cons]

/-- The reader is called once for an embed, and the run ends there if it fails. -/
theorem asked_hole (parse : List Call → Call → Except ε Expr) (h : Hole) (calls : List Call) :
    asked ((Mark.hole h).piece (asking parse)) calls =
      ((parse calls h.call).map fun value => .ok (.embed value h.verb h.span),
        calls ++ [h.call]) := by
  have hread : asked (asking parse h.call.1 h.call.2) calls =
      ((parse calls h.call).map .ok, calls ++ [h.call]) := rfl
  rw [Mark.piece, asked_bind_pure]
  show ((asked (asking parse h.call.1 h.call.2) calls).1.map _, _) = _
  rw [hread]
  cases parse calls h.call <;> rfl

/-- A run over an outline calls the reader for its first embeds and ends accordingly. -/
theorem asked_follow (parse : List Call → Call → Except ε Expr) (fault : Option Fault)
    (marks : List Mark) (calls : List Call) :
    ∃ first, (asked (Outline.follow (asking parse) ⟨marks, fault⟩) calls).2 =
        calls ++ first.map Hole.call ∧
      Ending (List.filterMap Piece.verbAndSpan?) (Outline.holes ⟨marks, fault⟩) fault
        (asked (Outline.follow (asking parse) ⟨marks, fault⟩) calls).1 first := by
  induction marks generalizing calls with
  | nil =>
    cases fault with
    | none => exact ⟨[], (List.append_nil calls).symm, .found rfl rfl⟩
    | some fault => exact ⟨[], (List.append_nil calls).symm, .faulty rfl⟩
  | cons mark marks ih =>
    have hcons : (⟨mark :: marks, fault⟩ : Outline) = .cons mark ⟨marks, fault⟩ := rfl
    rw [hcons]
    cases mark with
    | char c =>
      obtain ⟨first, hcalls, hending⟩ := ih calls
      rw [Outline.follow_char, asked_bind_pure]
      exact ⟨first, hcalls, hending.map fun found => rfl⟩
    | hole h =>
      rw [Outline.follow_cons, asked_bind, asked_hole]
      cases hparse : parse calls h.call with
      | error failure =>
        -- the embed has been asked for, and nothing after it is
        refine ⟨[h], rfl, .failed ?_ failure⟩
        exact List.cons_prefix_cons.mpr ⟨rfl, List.nil_prefix⟩
      | ok value =>
        obtain ⟨first, hcalls, hending⟩ := ih (calls ++ [h.call])
        simp only [Except.map]
        rw [asked_bind_pure]
        refine ⟨h :: first, ?_, hending.cons fun found => rfl⟩
        rw [hcalls, List.append_assoc]
        rfl

end Asking

/-! ## Split templates -/

end Template

/-- The verb and the place of an embed. -/
def Segment.verbAndSpan? : Segment → Option (Option String × Span)
  | text _ => none
  | embed _ verb span => some (verb, span)

namespace Template

/-- Adding a character does not change the embeds. -/
theorem filterMap_consChar (c : Char) (segments : List Segment) :
    (consChar c segments).filterMap Segment.verbAndSpan? =
      segments.filterMap Segment.verbAndSpan? := by
  cases segments with
  | nil => rfl
  | cons segment rest => cases segment <;> rfl

/-- Joining characters leaves the embeds as they are. -/
theorem filterMap_gather (found : List Piece) :
    (gather found).filterMap Segment.verbAndSpan? = found.filterMap Piece.verbAndSpan? := by
  induction found with
  | nil => rfl
  | cons piece found ih =>
    cases piece with
    | char c =>
      rw [gather, filterMap_consChar, ih]
      rfl
    | embed value verb span => exact congrArg ((verb, span) :: ·) ih

/-- Splitting a text takes only slices between characters of it, and it reports sound places. The
scan by offsets, which fails if a slice does not exist, finds the outline of every text, and
splitting follows that outline with every reader. The embeds of the outline are sound, and so is its
fault. A run with a reader that may fail calls it for embeds of the outline, from the first one on.
If it is not the reader that fails, the run ends with the fault of the outline, or with segments
that have the verbs and the places of its embeds. -/
theorem split_places {ε : Type} (parse : List Call → Call → Except ε Expr) (raw : String)
    (span : Span) :
    ∃ o : Outline, outlineAt? raw span.start (indexed 0 raw.toList) = some o ∧
      (∀ (n : Type → Type) [Monad n] [LawfulMonad n] (read : Reader (ExceptT Fault n)),
        split read raw span = gather <$> o.follow read) ∧
      o.IsSound raw span.start ∧
      ∃ first, (asked (split (asking parse) raw span) []).2 = first.map Hole.call ∧
        Ending (List.filterMap Segment.verbAndSpan?) o.holes o.fault
          (asked (split (asking parse) raw span) []).1 first := by
  obtain ⟨o, ho⟩ := exists_outlines raw span.start [] raw.toList
  have hsplit (n : Type → Type) [Monad n] [LawfulMonad n] (read : Reader (ExceptT Fault n)) :
      split read raw span = gather <$> o.follow read := by
    have hpieces := ho.pieces_eq read
    rw [split, byteCount_toList, map_eq_pure_bind, ← hpieces]
    rfl
  obtain ⟨first, hcalls, hending⟩ := asked_follow parse o.fault o.marks []
  refine ⟨o, ho.outlineAt?_eq rfl, hsplit, ho.isSound, first, ?_⟩
  rw [hsplit, map_eq_pure_bind, asked_bind_pure]
  exact ⟨hcalls, hending.map filterMap_gather⟩

end Template

end Desugar
