import Desugar.Task.State

/-!
# Threads that share a state

Any number of threads work on one `TaskState`: writers that settle it with an outcome and readers
that wait for one. A thread is a program counter beside the shared state, and each of its steps is
one of the atomic steps of `Desugar.Task.State`, so a schedule (the list of the threads that get
their turn, one after another) determines what happens. A thread whose step is not possible yet
keeps waiting, and its turn passes without effect.

- `Thread.advance?` is one step of a thread and `Threads.run` a whole schedule.
- `Move` lists what a step can do, guard by guard; every invariant is derived from it.
- `Single` is the invariant: one writer wins, one reader receives, and the message goes from the
  one to the other. `single_run` carries it through every schedule.
- `run_single_flight` collects what users of a state rely on.
-/

namespace Desugar

/-- What a thread does with a state. -/
inductive Operation (α : Type) where
  /-- Settles it, with a value or with a failure. -/
  | settle (outcome : TaskOutcome α)
  | get

/-- A thread, by how far its operation has got. -/
inductive Thread (α : Type) where
  /-- A writer before the swap. -/
  | writing (outcome : TaskOutcome α)
  /-- The writer that swapped first and has to send. -/
  | sending (outcome : TaskOutcome α)
  | wrote (outcome : TaskOutcome α) (result : Except StateError Unit)
  /-- A reader before the gate. -/
  | reading
  /-- The reader behind the gate, which has to receive. -/
  | receiving
  | read (result : Except StateError α)

namespace Thread

variable {α : Type}

/-- A thread that begins an operation. -/
def ofOperation : Operation α → Thread α
  | .settle outcome => writing outcome
  | .get => reading

/-- The next step of a thread, if it does not have to wait. A send waits for room in the channel,
a reader for the gate or for the outcome, and the reader behind the gate for a message. -/
def advance? (s : TaskState α) : Thread α → Option (TaskState α × Thread α)
  | writing outcome =>
    match s.claim with
    | (true, s) => some (s, sending outcome)
    | (false, s) => some (s, wrote outcome (.error .alreadySettled))
  | sending outcome =>
    match s.channel with
    | none => some (s.send outcome, wrote outcome (.ok ()))
    | some _ => none
  | reading =>
    match s.kept with
    | some outcome => some (s, read outcome.reading)
    | none => if s.entered then none else some (s.enter, receiving)
  | receiving =>
    match s.channel with
    | some outcome => some (s.receive, read outcome.reading)
    | none => none
  | wrote _ _ | read _ => none

end Thread

/-- A state and the threads that work on it. -/
structure Threads (α : Type) where
  state : TaskState α
  threads : List (Thread α)

namespace Threads

variable {α : Type}

/-- A new state, and a thread for each of several operations. -/
def start (operations : List (Operation α)) : Threads α :=
  { state := {}, threads := operations.map Thread.ofOperation }

/-- The turn of thread `i`. -/
def turn (c : Threads α) (i : Nat) : Threads α :=
  match c.threads[i]? with
  | none => c
  | some thread =>
    match thread.advance? c.state with
    | none => c
    | some (state, thread) => { state, threads := c.threads.set i thread }

/-- The turns of a schedule, one after another. -/
def run (c : Threads α) (schedule : List Nat) : Threads α := schedule.foldl turn c

end Threads

/-! ## What a step can do -/

namespace TaskState

variable {α : Type} {s : TaskState α}

/-- The first reader enters the gate and starts the receive. -/
theorem enter_of_free (hk : s.kept = none) (he : s.entered = false) :
    s.enter = { s with entered := true, receives := s.receives + 1 } := by
  rw [enter, hk, he]
  rfl

/-- The message moves from the channel to where every reader finds it. -/
theorem receive_of_message {outcome : TaskOutcome α} (he : s.entered = true) (hk : s.kept = none)
    (hc : s.channel = some outcome) :
    s.receive = { s with channel := none, kept := some outcome } := by
  simp only [receive, he, hk, hc]

end TaskState

/-- The steps of a thread, with their guards and their whole effect. -/
inductive Move {α : Type} (s : TaskState α) : Thread α → TaskState α → Thread α → Prop where
  | claim (outcome : TaskOutcome α) : s.settled = false →
    Move s (.writing outcome) { s with settled := true } (.sending outcome)
  | late (outcome : TaskOutcome α) : s.settled = true →
    Move s (.writing outcome) s (.wrote outcome (.error .alreadySettled))
  | send (outcome : TaskOutcome α) : s.channel = none →
    Move s (.sending outcome) { s with channel := some outcome } (.wrote outcome (.ok ()))
  | reread (outcome : TaskOutcome α) : s.kept = some outcome →
    Move s .reading s (.read outcome.reading)
  | enter : s.kept = none → s.entered = false →
    Move s .reading { s with entered := true, receives := s.receives + 1 } .receiving
  | receive (outcome : TaskOutcome α) : s.channel = some outcome →
    Move s .receiving s.receive (.read outcome.reading)

section Moves

variable {α : Type} {s s' : TaskState α} {t t' : Thread α}

/-- The steps of a thread are those that are listed. -/
theorem move_of_advance? (h : t.advance? s = some (s', t')) : Move s t s' t' := by
  cases t with
  | writing outcome =>
    cases hs : s.settled with
    | false =>
      simp only [Thread.advance?, TaskState.claim, hs, Bool.not_false, Option.some.injEq,
        Prod.mk.injEq] at h
      obtain ⟨rfl, rfl⟩ := h
      exact .claim outcome hs
    | true =>
      have hsame : { s with settled := true } = s := by rw [← hs]
      simp only [Thread.advance?, TaskState.claim, hs, Bool.not_true, Option.some.injEq,
        Prod.mk.injEq, hsame] at h
      obtain ⟨rfl, rfl⟩ := h
      exact .late outcome hs
  | sending outcome =>
    cases hc : s.channel with
    | none =>
      simp only [Thread.advance?, hc, TaskState.send, Option.some.injEq, Prod.mk.injEq] at h
      obtain ⟨rfl, rfl⟩ := h
      exact .send outcome hc
    | some _ => simp [Thread.advance?, hc] at h
  | reading =>
    cases hk : s.kept with
    | some outcome =>
      simp only [Thread.advance?, hk, Option.some.injEq, Prod.mk.injEq] at h
      obtain ⟨rfl, rfl⟩ := h
      exact .reread outcome hk
    | none =>
      cases he : s.entered with
      | true => simp [Thread.advance?, hk, he] at h
      | false =>
        simp only [Thread.advance?, hk, he, Bool.false_eq_true, if_false,
          TaskState.enter_of_free hk he, Option.some.injEq, Prod.mk.injEq] at h
        obtain ⟨hs', rfl⟩ := h
        rw [← hs', ← hk]
        exact .enter hk he
  | receiving =>
    cases hc : s.channel with
    | none => simp [Thread.advance?, hc] at h
    | some outcome =>
      simp only [Thread.advance?, hc, Option.some.injEq, Prod.mk.injEq] at h
      obtain ⟨rfl, rfl⟩ := h
      exact .receive outcome hc
  | wrote outcome result => simp [Thread.advance?] at h
  | read result => simp [Thread.advance?] at h

/-- A turn either passes without effect or is a move of the thread whose turn it is. -/
theorem turn_cases (c : Threads α) (i : Nat) :
    c.turn i = c ∨ ∃ t s' t', c.threads[i]? = some t ∧ Move c.state t s' t' ∧
      c.turn i = { state := s', threads := c.threads.set i t' } := by
  unfold Threads.turn
  cases hi : c.threads[i]? with
  | none => exact .inl rfl
  | some t =>
    cases ht : t.advance? c.state with
    | none => exact .inl (by simp only [ht])
    | some next =>
      obtain ⟨s', t'⟩ := next
      exact .inr ⟨t, s', t', rfl, move_of_advance? ht, by simp only [ht]⟩

end Moves

/-! ## One winner, one receive -/

namespace Threads

variable {α : Type} {c : Threads α}

/-- Thread `i` stands at `t`. -/
def At (c : Threads α) (i : Nat) (t : Thread α) : Prop := c.threads[i]? = some t

theorem At.unique {i : Nat} {t u : Thread α} (ht : c.At i t) (hu : c.At i u) : t = u :=
  Option.some.inj (ht.symm.trans hu)

/-- A thread that made a step stands at the next place. -/
theorem at_moved {i : Nat} {t : Thread α} (ht : c.At i t) (s : TaskState α) (t' : Thread α) :
    At { state := s, threads := c.threads.set i t' } i t' :=
  List.getElem?_set_self (List.getElem?_eq_some_iff.mp ht).1

/-- The other threads stay where they stand. -/
theorem at_other {i j : Nat} (hij : i ≠ j) (s : TaskState α) (t' u : Thread α) :
    At { state := s, threads := c.threads.set i t' } j u ↔ c.At j u := by
  unfold At
  rw [List.getElem?_set_ne hij]

/-- After a move of thread `i`, a thread is that one at its new place or another one where it
was. -/
theorem at_cases {i j : Nat} {t t' u : Thread α} {s : TaskState α} (ht : c.At i t)
    (hu : At { state := s, threads := c.threads.set i t' } j u) :
    (j = i ∧ u = t') ∨ (j ≠ i ∧ c.At j u) := by
  by_cases hij : i = j
  · subst hij
    exact .inl ⟨rfl, (at_moved ht s t').unique hu |>.symm⟩
  · exact .inr ⟨Ne.symm hij, (at_other hij s t' u).mp hu⟩

end Threads

/-- The writer that swapped first, whether or not it has sent yet. -/
inductive Wins {α : Type} (outcome : TaskOutcome α) : Thread α → Prop where
  | sending : Wins outcome (.sending outcome)
  | sent : Wins outcome (.wrote outcome (.ok ()))

/-- One writer wins, and its message is in exactly one place: with the writer that has yet to send
it, in the channel, or kept. -/
structure OneWinner {α : Type} (c : Threads α) : Prop where
  /-- The flag is set by the winner. -/
  claimed : c.state.settled = true ↔ ∃ i t o, c.At i t ∧ Wins o t
  unique : ∀ {i j t u o p}, c.At i t → c.At j u → Wins o t → Wins p u → i = j
  unsent : ∀ {i o}, c.At i (.sending o) → c.state.channel = none ∧ c.state.kept = none
  message : ∀ {o}, c.state.channel = some o →
    c.state.kept = none ∧ ∃ i, c.At i (.wrote o (.ok ()))
  memo : ∀ {o}, c.state.kept = some o →
    c.state.channel = none ∧ ∃ i, c.At i (.wrote o (.ok ()))
  late : ∀ {i o e}, c.At i (.wrote o (.error e)) → e = .alreadySettled

/-- One reader passes the gate, and what every reader has read is what is kept. -/
structure OneReceive {α : Type} (c : Threads α) : Prop where
  /-- The receive is counted when the gate is passed. -/
  counted : c.state.receives = if c.state.entered then 1 else 0
  holder : ∀ {i}, c.At i .receiving → c.state.entered = true ∧ c.state.kept = none
  alone : ∀ {i j}, c.At i .receiving → c.At j .receiving → i = j
  answered : ∀ {i r}, c.At i (.read r) → ∃ o, c.state.kept = some o ∧ r = o.reading

section Start

variable {α : Type}

/-- At first every thread is about to write or to read. -/
theorem at_start {operations : List (Operation α)} {i : Nat} {t : Thread α}
    (h : (Threads.start operations).At i t) : (∃ o, t = .writing o) ∨ t = .reading := by
  simp only [Threads.At, Threads.start, List.getElem?_map, Option.map_eq_some_iff] at h
  obtain ⟨operation, -, rfl⟩ := h
  cases operation with
  | settle o => exact .inl ⟨o, rfl⟩
  | get => exact .inr rfl

/-- At first no writer has won. -/
theorem oneWinner_start (operations : List (Operation α)) :
    OneWinner (Threads.start operations) := by
  have hwins : ∀ {i t o}, (Threads.start operations).At i t → ¬ Wins o t := by
    intro i t o h hw
    obtain ⟨p, rfl⟩ | rfl := at_start h <;> cases hw
  refine ⟨⟨nofun, ?_⟩, fun hi _ hw _ => absurd hw (hwins hi), fun hi => absurd .sending (hwins hi),
    nofun, nofun, fun hi => ?_⟩
  · rintro ⟨i, t, o, hi, hw⟩
    exact absurd hw (hwins hi)
  · obtain ⟨p, hp⟩ | hp := at_start hi <;> cases hp

/-- At first no reader has passed the gate. -/
theorem oneReceive_start (operations : List (Operation α)) :
    OneReceive (Threads.start operations) := by
  refine ⟨rfl, fun hi => ?_, fun hi => ?_, fun hi => ?_⟩
  all_goals
    obtain ⟨p, hp⟩ | hp := at_start hi <;> cases hp

end Start

/-! ## Moves keep both halves -/

section Preservation

variable {α : Type} {c : Threads α} {i : Nat} {t t' : Thread α} {s' : TaskState α}

/-- Before the flag is set there is no message anywhere. -/
theorem OneWinner.quiet (h : OneWinner c) (hs : c.state.settled = false) :
    c.state.channel = none ∧ c.state.kept = none := by
  have hno : ∀ {o}, ¬ ∃ i, c.At i (.wrote o (.ok ())) := by
    rintro o ⟨i, hi⟩
    exact absurd (hs.symm.trans (h.claimed.mpr ⟨i, _, o, hi, .sent⟩)) nofun
  constructor
  · cases hc : c.state.channel with
    | none => rfl
    | some o => exact absurd (h.message hc).2 hno
  · cases hk : c.state.kept with
    | none => rfl
    | some o => exact absurd (h.memo hk).2 hno

/-- A writer that is done stays where it is when another thread moves. -/
theorem sent_moved (ht : c.At i t) (hopen : ∀ o r, t ≠ .wrote o r) (s' : TaskState α)
    (t' : Thread α) {o : TaskOutcome α} (h : ∃ j, c.At j (.wrote o (.ok ()))) :
    ∃ j, Threads.At { state := s', threads := c.threads.set i t' } j (.wrote o (.ok ())) := by
  obtain ⟨j, hj⟩ := h
  have hij : i ≠ j := by
    rintro rfl
    exact hopen o _ (ht.unique hj)
  exact ⟨j, (Threads.at_other hij s' t' _).mpr hj⟩

/-- A move that leaves the flag, the channel and the kept outcome alone and is not the win of a
writer keeps the writers' half. -/
theorem OneWinner.frame (h : OneWinner c) (ht : c.At i t) (hopen : ∀ o r, t ≠ .wrote o r)
    (hwas : ∀ o, ¬ Wins o t) (his : ∀ o, ¬ Wins o t')
    (hlate : ∀ o e, t' = .wrote o (.error e) → e = .alreadySettled)
    (hsettled : s'.settled = c.state.settled) (hchannel : s'.channel = c.state.channel)
    (hkept : s'.kept = c.state.kept) :
    OneWinner { state := s', threads := c.threads.set i t' } := by
  have hback : ∀ {j u p}, Threads.At { state := s', threads := c.threads.set i t' } j u →
      Wins p u → c.At j u := by
    intro j u p hj hw
    obtain ⟨-, rfl⟩ | ⟨-, hj⟩ := Threads.at_cases ht hj
    · exact absurd hw (his p)
    · exact hj
  refine ⟨?_, fun hi hj hu hv => h.unique (hback hi hu) (hback hj hv) hu hv, fun hj => ?_,
    fun hc => ?_, fun hk => ?_, fun {j p e} hj => ?_⟩
  · show s'.settled = true ↔ _
    rw [hsettled, h.claimed]
    constructor
    · rintro ⟨j, u, p, hj, hw⟩
      have hij : i ≠ j := by
        rintro rfl
        exact hwas p (ht.unique hj ▸ hw)
      exact ⟨j, u, p, (Threads.at_other hij s' t' u).mpr hj, hw⟩
    · rintro ⟨j, u, p, hj, hw⟩
      exact ⟨j, u, p, hback hj hw, hw⟩
  · show s'.channel = none ∧ s'.kept = none
    rw [hchannel, hkept]
    exact h.unsent (hback hj .sending)
  · have hm := h.message (hchannel.symm.trans hc)
    exact ⟨hkept.trans hm.1, sent_moved ht hopen s' t' hm.2⟩
  · have hm := h.memo (hkept.symm.trans hk)
    exact ⟨hchannel.trans hm.1, sent_moved ht hopen s' t' hm.2⟩
  · obtain ⟨-, rfl⟩ | ⟨-, hj⟩ := Threads.at_cases ht hj
    · exact hlate p e rfl
    · exact h.late hj

/-- A move of a writer keeps the readers' half, as long as it leaves the gate and the kept outcome
alone. -/
theorem OneReceive.frame (h : OneReceive c) (ht : c.At i t) (hgate : t' ≠ .receiving)
    (hread : ∀ r, t' ≠ .read r) (hkept : s'.kept = c.state.kept)
    (hentered : s'.entered = c.state.entered) (hreceives : s'.receives = c.state.receives) :
    OneReceive { state := s', threads := c.threads.set i t' } := by
  have hback : ∀ {j u}, Threads.At { state := s', threads := c.threads.set i t' } j u → u ≠ t' →
      c.At j u := by
    intro j u hj hu
    obtain ⟨-, rfl⟩ | ⟨-, hj⟩ := Threads.at_cases ht hj
    · exact absurd rfl hu
    · exact hj
  refine ⟨?_, fun hj => ?_, fun hj hk => h.alone (hback hj hgate.symm) (hback hk hgate.symm),
    fun {j r} hj => ?_⟩
  · show s'.receives = if s'.entered then 1 else 0
    rw [hreceives, hentered]
    exact h.counted
  · show s'.entered = true ∧ s'.kept = none
    rw [hentered, hkept]
    exact h.holder (hback hj hgate.symm)
  · show ∃ o, s'.kept = some o ∧ r = o.reading
    rw [hkept]
    exact h.answered (hback hj (hread r).symm)

/-- The swap of a writer: it is the first, so nobody has won before and no message exists. -/
theorem OneWinner.claim (h : OneWinner c) {o : TaskOutcome α} (ht : c.At i (.writing o))
    (hs : c.state.settled = false) :
    OneWinner { state := { c.state with settled := true },
                threads := c.threads.set i (.sending o) } := by
  have hquiet := h.quiet hs
  have hno : ∀ {j u p}, c.At j u → ¬ Wins p u := by
    intro j u p hj hw
    exact absurd (hs.symm.trans (h.claimed.mpr ⟨j, u, p, hj, hw⟩)) nofun
  have honly : ∀ {j u p},
      Threads.At { state := { c.state with settled := true },
                   threads := c.threads.set i (.sending o) } j u → Wins p u → j = i := by
    intro j u p hj hw
    obtain ⟨rfl, -⟩ | ⟨-, hj⟩ := Threads.at_cases ht hj
    · rfl
    · exact absurd hw (hno hj)
  refine ⟨⟨fun _ => ⟨i, _, o, Threads.at_moved ht _ _, .sending⟩, fun _ => rfl⟩,
    fun hj hk hu hv => (honly hj hu).trans (honly hk hv).symm, fun _ => hquiet,
    fun hc => absurd (hquiet.1.symm.trans hc) nofun,
    fun hk => absurd (hquiet.2.symm.trans hk) nofun, fun {j p e} hj => ?_⟩
  obtain ⟨-, hj⟩ | ⟨-, hj⟩ := Threads.at_cases ht hj
  · cases hj
  · exact h.late hj

/-- The send of the winner: the message goes from the writer into the channel. -/
theorem OneWinner.send (h : OneWinner c) {o : TaskOutcome α} (ht : c.At i (.sending o)) :
    OneWinner { state := { c.state with channel := some o },
                threads := c.threads.set i (.wrote o (.ok ())) } := by
  have honly : ∀ {j u p},
      Threads.At { state := { c.state with channel := some o },
                   threads := c.threads.set i (.wrote o (.ok ())) } j u → Wins p u → j = i := by
    intro j u p hj hw
    obtain ⟨rfl, -⟩ | ⟨-, hj⟩ := Threads.at_cases ht hj
    · rfl
    · exact h.unique hj ht hw .sending
  refine ⟨⟨fun _ => ⟨i, _, o, Threads.at_moved ht _ _, .sent⟩,
      fun _ => h.claimed.mpr ⟨i, _, o, ht, .sending⟩⟩,
    fun hj hk hu hv => (honly hj hu).trans (honly hk hv).symm, fun {j p} hj => ?_,
    fun {p} hc => ?_, fun hk => absurd ((h.unsent ht).2.symm.trans hk) nofun, fun {j p e} hj => ?_⟩
  · -- Another writer that is about to send would have won as well.
    obtain ⟨-, hj'⟩ | ⟨hne, -⟩ := Threads.at_cases ht hj
    · cases hj'
    · exact absurd (honly hj .sending) hne
  · cases hc
    exact ⟨(h.unsent ht).2, i, Threads.at_moved ht _ _⟩
  · obtain ⟨-, hj⟩ | ⟨-, hj⟩ := Threads.at_cases ht hj
    · cases hj
    · exact h.late hj

/-- The receive: the message goes from the channel to where it is kept. -/
theorem OneWinner.receive (h : OneWinner c) {o : TaskOutcome α} (ht : c.At i .receiving)
    (hc : c.state.channel = some o) :
    OneWinner { state := { c.state with channel := none, kept := some o },
                threads := c.threads.set i (.read o.reading) } := by
  obtain ⟨-, w, hw⟩ := h.message hc
  have hback : ∀ {j u p},
      Threads.At { state := { c.state with channel := none, kept := some o },
                   threads := c.threads.set i (.read o.reading) } j u → Wins p u → c.At j u := by
    intro j u p hj hu
    obtain ⟨-, rfl⟩ | ⟨-, hj⟩ := Threads.at_cases ht hj
    · cases hu
    · exact hj
  have hsent := sent_moved ht nofun { c.state with channel := none, kept := some o }
    (.read o.reading) ⟨w, hw⟩
  refine ⟨⟨fun _ => hsent.imp fun j hj => ⟨_, o, hj, .sent⟩,
      fun ⟨j, u, p, hj, hu⟩ => h.claimed.mpr ⟨j, u, p, hback hj hu, hu⟩⟩,
    fun hj hk hu hv => h.unique (hback hj hu) (hback hk hv) hu hv, fun hj => ?_, nofun,
    fun hk => ?_, fun {j p e} hj => ?_⟩
  · -- The winner has sent, so no writer is about to.
    have hsame := h.unsent (hback hj .sending)
    exact absurd (hc.symm.trans hsame.1) nofun
  · cases hk
    exact ⟨rfl, hsent⟩
  · obtain ⟨-, hj⟩ | ⟨-, hj⟩ := Threads.at_cases ht hj
    · cases hj
    · exact h.late hj

/-- A reader that finds an outcome returns what is kept. -/
theorem OneReceive.reread (h : OneReceive c) {o : TaskOutcome α} (ht : c.At i .reading)
    (hk : c.state.kept = some o) :
    OneReceive { c with threads := c.threads.set i (.read o.reading) } := by
  refine ⟨h.counted, fun {j} hj => ?_, fun {j k} hj hk => ?_, fun {j r} hj => ?_⟩
  · obtain ⟨-, hj⟩ | ⟨-, hj⟩ := Threads.at_cases ht hj
    · cases hj
    · exact h.holder hj
  · obtain ⟨-, hj⟩ | ⟨-, hj⟩ := Threads.at_cases ht hj
    · cases hj
    obtain ⟨-, hk⟩ | ⟨-, hk⟩ := Threads.at_cases ht hk
    · cases hk
    exact h.alone hj hk
  · obtain ⟨-, hj⟩ | ⟨-, hj⟩ := Threads.at_cases ht hj
    · cases hj
      exact ⟨o, hk, rfl⟩
    · exact h.answered hj

/-- The first reader passes the gate: nobody is behind it yet. -/
theorem OneReceive.enter (h : OneReceive c) (ht : c.At i .reading) (hk : c.state.kept = none)
    (he : c.state.entered = false) :
    OneReceive { state := { c.state with entered := true, receives := c.state.receives + 1 },
                 threads := c.threads.set i .receiving } := by
  have hnone : ∀ {j}, ¬ c.At j .receiving := fun hj => absurd (he.symm.trans (h.holder hj).1) nofun
  have honly : ∀ {j},
      Threads.At { state := { c.state with entered := true, receives := c.state.receives + 1 },
                   threads := c.threads.set i .receiving } j .receiving → j = i := by
    intro j hj
    obtain ⟨rfl, -⟩ | ⟨-, hj⟩ := Threads.at_cases ht hj
    · rfl
    · exact absurd hj hnone
  refine ⟨?_, fun _ => ⟨rfl, hk⟩, fun hj hk => (honly hj).trans (honly hk).symm, fun {j r} hj => ?_⟩
  · show c.state.receives + 1 = 1
    rw [h.counted, he]
    rfl
  · obtain ⟨-, hj⟩ | ⟨-, hj⟩ := Threads.at_cases ht hj
    · cases hj
    · exact h.answered hj

/-- The reader behind the gate keeps the message: it was alone, and nobody has read before. -/
theorem OneReceive.receive (h : OneReceive c) {o : TaskOutcome α} (ht : c.At i .receiving) :
    OneReceive { state := { c.state with channel := none, kept := some o },
                 threads := c.threads.set i (.read o.reading) } := by
  have hnone : ∀ {j},
      ¬ Threads.At { state := { c.state with channel := none, kept := some o },
                     threads := c.threads.set i (.read o.reading) } j .receiving := by
    intro j hj
    obtain ⟨-, hj⟩ | ⟨hne, hj⟩ := Threads.at_cases ht hj
    · cases hj
    · exact hne (h.alone hj ht)
  refine ⟨h.counted, fun hj => absurd hj hnone, fun hj => absurd hj hnone, fun {j r} hj => ?_⟩
  obtain ⟨-, hj⟩ | ⟨-, hj⟩ := Threads.at_cases ht hj
  · cases hj
    exact ⟨o, rfl, rfl⟩
  · obtain ⟨p, hp, -⟩ := h.answered hj
    exact absurd ((h.holder ht).2.symm.trans hp) nofun

end Preservation

/-- The invariant of threads that started together on a new state. -/
structure Single {α : Type} (c : Threads α) : Prop where
  winner : OneWinner c
  receive : OneReceive c

section Runs

variable {α : Type} {c : Threads α}

/-- The invariant holds of threads that start together. -/
theorem single_start (operations : List (Operation α)) : Single (Threads.start operations) :=
  ⟨oneWinner_start operations, oneReceive_start operations⟩

/-- Every move keeps the invariant. -/
theorem single_move (h : Single c) {i : Nat} {t t' : Thread α} {s' : TaskState α} (ht : c.At i t)
    (hm : Move c.state t s' t') : Single { state := s', threads := c.threads.set i t' } := by
  obtain ⟨hw, hr⟩ := h
  cases hm with
  | claim o hs => exact ⟨hw.claim ht hs, hr.frame ht nofun nofun rfl rfl rfl⟩
  | late o hs =>
    refine ⟨hw.frame ht nofun nofun nofun ?_ rfl rfl rfl, hr.frame ht nofun nofun rfl rfl rfl⟩
    intro p e he
    cases he
    rfl
  | send o hc => exact ⟨hw.send ht, hr.frame ht nofun nofun rfl rfl rfl⟩
  | reread o hk => exact ⟨hw.frame ht nofun nofun nofun nofun rfl rfl rfl, hr.reread ht hk⟩
  | enter hk he => exact ⟨hw.frame ht nofun nofun nofun nofun rfl rfl rfl, hr.enter ht hk he⟩
  | receive o hc =>
    obtain ⟨he, hk⟩ := hr.holder ht
    rw [TaskState.receive_of_message he hk hc]
    exact ⟨hw.receive ht hc, hr.receive ht⟩

/-- Every turn keeps the invariant. -/
theorem single_turn (h : Single c) (i : Nat) : Single (c.turn i) := by
  obtain hsame | ⟨t, s', t', ht, hm, hnext⟩ := turn_cases c i
  · rw [hsame]
    exact h
  · rw [hnext]
    exact single_move h ht hm

/-- Every schedule keeps the invariant. -/
theorem single_run (h : Single c) : ∀ schedule : List Nat, Single (c.run schedule) := by
  intro schedule
  induction schedule generalizing c with
  | nil => exact h
  | cons i rest ih => exact ih (single_turn h i)

/-- A turn neither unsets the flag nor changes what is kept. -/
theorem lasting_turn (h : Single c) (i : Nat) :
    (c.state.settled = true → (c.turn i).state.settled = true) ∧
      ∀ o, c.state.kept = some o → (c.turn i).state.kept = some o := by
  obtain hsame | ⟨t, s', t', ht, hm, hnext⟩ := turn_cases c i
  · rw [hsame]
    exact ⟨id, fun _ => id⟩
  rw [hnext]
  cases hm with
  | claim o hs => exact ⟨fun _ => rfl, fun _ => id⟩
  | late o hs => exact ⟨id, fun _ => id⟩
  | send o hc => exact ⟨id, fun _ => id⟩
  | reread o hk => exact ⟨id, fun _ => id⟩
  | enter hk he => exact ⟨id, fun _ => id⟩
  | receive o hc =>
    obtain ⟨he, hk⟩ := h.receive.holder ht
    rw [TaskState.receive_of_message he hk hc]
    exact ⟨id, fun p hp => absurd (hk.symm.trans hp) nofun⟩

/-- A settled state stays settled, and what is kept stays the same, under every schedule. -/
theorem lasting_run (h : Single c) : ∀ schedule : List Nat,
    (c.state.settled = true → (c.run schedule).state.settled = true) ∧
      ∀ o, c.state.kept = some o → (c.run schedule).state.kept = some o := by
  intro schedule
  induction schedule generalizing c with
  | nil => exact ⟨id, fun _ => id⟩
  | cons i rest ih =>
    have hnow := lasting_turn h i
    have hlater := ih (single_turn h i)
    exact ⟨fun hs => hlater.1 (hnow.1 hs), fun o ho => hlater.2 o (hnow.2 o ho)⟩

end Runs

/-! ## Single flight -/

/-- **Single flight.** Whatever the operations and whatever their schedule: at most one receive is
ever started; at most one writer succeeds, and a writer that is done without success was told that
the state is settled; a send finds the channel empty and does not wait; every reader that is done
has the outcome of the writer that succeeded, hence all have the same; and neither the flag nor
the kept outcome changes once it is set. -/
theorem run_single_flight {α : Type} (operations : List (Operation α)) (schedule : List Nat) :
    let c := (Threads.start operations).run schedule
    c.state.receives ≤ 1 ∧
      (∀ i j o p, c.At i (.wrote o (.ok ())) → c.At j (.wrote p (.ok ())) → i = j) ∧
      (∀ i o r, c.At i (.wrote o r) → r = .ok () ∨ r = .error .alreadySettled) ∧
      (∀ i o, c.At i (.sending o) →
        c.state.channel = none ∧ (Thread.advance? c.state (.sending o)).isSome) ∧
      (∀ i r, c.At i (.read r) → ∃ w o, c.At w (.wrote o (.ok ())) ∧ r = o.reading) ∧
      (∀ i j q r, c.At i (.read q) → c.At j (.read r) → q = r) ∧
      ∀ more, (c.state.settled = true → (c.run more).state.settled = true) ∧
        ∀ o, c.state.kept = some o → (c.run more).state.kept = some o := by
  intro c
  have h : Single c := single_run (single_start operations) schedule
  refine ⟨?_, fun i j o p hi hj => h.winner.unique hi hj .sent .sent, ?_, ?_, ?_, ?_,
    lasting_run h⟩
  · rw [h.receive.counted]
    split <;> omega
  · intro i o r hi
    cases r with
    | ok done => exact .inl rfl
    | error e => exact .inr (congrArg Except.error (h.winner.late hi))
  · intro i o hi
    have hempty := (h.winner.unsent hi).1
    refine ⟨hempty, ?_⟩
    rw [Thread.advance?, hempty]
    rfl
  · intro i r hi
    obtain ⟨o, hk, hr⟩ := h.receive.answered hi
    obtain ⟨-, w, hw⟩ := h.winner.memo hk
    exact ⟨w, o, hw, hr⟩
  · intro i j q r hi hj
    obtain ⟨o, hk, rfl⟩ := h.receive.answered hi
    obtain ⟨p, hp, rfl⟩ := h.receive.answered hj
    rw [Option.some.inj (hk.symm.trans hp)]

/-- A reader comes first, a second writer between the swap and the send of the first, and a late
reader last. -/
example :
    (((Threads.start [.get, .settle (.value 7), .settle (.failed "late"), .get]).run
      [0, 1, 2, 3, 0, 1, 3, 0, 3]).threads : List (Thread Nat)) =
      [.read (.ok 7), .wrote (.value 7) (.ok ()),
        .wrote (.failed "late") (.error .alreadySettled), .read (.ok 7)] := by
  rfl

end Desugar
