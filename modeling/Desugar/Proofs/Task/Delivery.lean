import Desugar.Proofs.Task.Interleaving

/-!
# A single delivery

One writer settles a state that any number of readers wait for. The writer cannot be refused, what
it sends is in the channel until it is kept, and somebody is behind the gate until then. So every
reader is given the outcome of that writer, and once it is done no reader waits in vain.

- `Thread.operation` is what a thread was started for; it never changes.
- `Accounted` says where a sent message and a passed gate have gone. Like `Single` it holds of any
  number of threads that started together, and every turn keeps it.
- `Threads.deliver`: one writer and its readers. `Served` is what holds in every configuration they
  can reach.
- `Served.eq_reading`: what readers are given; `Served.fulfilled`: that they are given it.
-/

namespace Desugar

/-! ## What a thread was started for -/

section Operations

variable {α : Type} {c : Threads α}

/-- What a thread does, however far it has got. -/
def Thread.operation : Thread α → Operation α
  | .writing outcome | .sending outcome | .wrote outcome _ => .settle outcome
  | .reading | .receiving | .read _ => .get

/-- A step goes on with the operation of its thread. -/
theorem Move.operation_eq {s s' : TaskState α} {t t' : Thread α} (h : Move s t s' t') :
    t'.operation = t.operation := by
  cases h <;> rfl

/-- A turn leaves all threads with their operations. -/
theorem operations_turn (c : Threads α) (i : Nat) :
    (c.turn i).threads.map Thread.operation = c.threads.map Thread.operation := by
  obtain hsame | ⟨t, s', t', ht, hm, hnext⟩ := turn_cases c i
  · rw [hsame]
  · obtain ⟨hi, rfl⟩ := List.getElem?_eq_some_iff.mp ht
    rw [hnext, List.map_set, hm.operation_eq, ← List.map_set, List.set_getElem_self]

end Operations

/-! ## Nothing is lost -/

/-- A sent message is in one of the places where readers find it, and the gate is held open for
it. -/
structure Accounted {α : Type} (c : Threads α) : Prop where
  /-- Whoever is refused came after another writer. -/
  refused : ∀ {i o e}, c.At i (.wrote o (.error e)) → c.state.settled = true
  delivered : ∀ {i o}, c.At i (.wrote o (.ok ())) →
    c.state.channel = some o ∨ c.state.kept = some o
  /-- A reader is behind the gate until there is an outcome. -/
  attended : c.state.entered = true → c.state.kept = none → ∃ i, c.At i .receiving

section Accounted

variable {α : Type} {c : Threads α} {i : Nat} {t t' : Thread α} {s' : TaskState α}

/-- At first nothing is sent. -/
theorem accounted_start (operations : List (Operation α)) :
    Accounted (Threads.start operations) := by
  refine ⟨fun hi => ?_, fun hi => ?_, nofun⟩
  all_goals
    obtain ⟨p, hp⟩ | hp := at_start hi <;> cases hp

/-- A move of a thread that is not behind the gate leaves the reader there alone. -/
theorem receiving_moved (ht : c.At i t) (hgate : t ≠ .receiving) (s' : TaskState α)
    (t' : Thread α) (h : ∃ j, c.At j .receiving) :
    ∃ j, Threads.At { state := s', threads := c.threads.set i t' } j .receiving := by
  obtain ⟨j, hj⟩ := h
  have hij : i ≠ j := by
    rintro rfl
    exact hgate (ht.unique hj)
  exact ⟨j, (Threads.at_other hij s' t' _).mpr hj⟩

/-- A move that sends nothing, takes nothing and does not pass the gate. -/
theorem Accounted.frame (h : Accounted c) (ht : c.At i t) (hgate : t ≠ .receiving)
    (hrefused : ∀ o e, t' = .wrote o (.error e) → s'.settled = true)
    (hsent : ∀ o, t' ≠ .wrote o (.ok ()))
    (hsettled : c.state.settled = true → s'.settled = true)
    (hchannel : s'.channel = c.state.channel) (hkept : s'.kept = c.state.kept)
    (hentered : s'.entered = c.state.entered) :
    Accounted { state := s', threads := c.threads.set i t' } := by
  refine ⟨fun {j o e} hj => ?_, fun {j o} hj => ?_, fun he hk => ?_⟩
  · obtain ⟨-, hj⟩ | ⟨-, hj⟩ := Threads.at_cases ht hj
    · exact hrefused o e hj.symm
    · exact hsettled (h.refused hj)
  · obtain ⟨-, hj⟩ | ⟨-, hj⟩ := Threads.at_cases ht hj
    · exact absurd hj.symm (hsent o)
    · show s'.channel = some o ∨ s'.kept = some o
      rw [hchannel, hkept]
      exact h.delivered hj
  · exact receiving_moved ht hgate s' t' (h.attended (hentered ▸ he) (hkept ▸ hk))

/-- The send of the winner: no other message was sent before. -/
theorem Accounted.send (h : Accounted c) (hw : OneWinner c) {o : TaskOutcome α}
    (ht : c.At i (.sending o)) :
    Accounted { state := { c.state with channel := some o },
                threads := c.threads.set i (.wrote o (.ok ())) } := by
  refine ⟨fun {j p e} hj => ?_, fun {j p} hj => ?_, fun he hk => ?_⟩
  · obtain ⟨-, hj⟩ | ⟨-, hj⟩ := Threads.at_cases ht hj
    · cases hj
    · exact h.refused hj
  · obtain ⟨-, hj⟩ | ⟨hne, hj⟩ := Threads.at_cases ht hj
    · cases hj
      exact .inl rfl
    · exact absurd (hw.unique hj ht .sent .sending) hne
  · exact receiving_moved ht nofun _ _ (h.attended he hk)

/-- The receive: the message is kept as it leaves the channel. -/
theorem Accounted.receive (h : Accounted c) {o : TaskOutcome α} (ht : c.At i .receiving)
    (hc : c.state.channel = some o) (hk : c.state.kept = none) :
    Accounted { state := { c.state with channel := none, kept := some o },
                threads := c.threads.set i (.read o.reading) } := by
  refine ⟨fun {j p e} hj => ?_, fun {j p} hj => ?_, nofun⟩
  · obtain ⟨-, hj⟩ | ⟨-, hj⟩ := Threads.at_cases ht hj
    · cases hj
    · exact h.refused hj
  · obtain ⟨-, hj⟩ | ⟨-, hj⟩ := Threads.at_cases ht hj
    · cases hj
    · obtain hp | hp := h.delivered hj
      · exact .inr (hc.symm.trans hp)
      · exact absurd (hk.symm.trans hp) nofun

/-- A step keeps account of the message, one case for each kind of step. -/
theorem accounted_move (h : Accounted c) (hs : Single c) (ht : c.At i t)
    (hm : Move c.state t s' t') : Accounted { state := s', threads := c.threads.set i t' } := by
  cases hm with
  | claim o hsettled => exact h.frame ht nofun nofun nofun (fun _ => rfl) rfl rfl rfl
  | late o hsettled => exact h.frame ht nofun (fun _ _ _ => hsettled) nofun id rfl rfl rfl
  | send o hc => exact h.send hs.winner ht
  | reread o hk => exact h.frame ht nofun nofun nofun id rfl rfl rfl
  | enter hk he =>
    refine ⟨fun {j o e} hj => ?_, fun {j o} hj => ?_, fun _ _ => ⟨i, Threads.at_moved ht _ _⟩⟩
    · obtain ⟨-, hj⟩ | ⟨-, hj⟩ := Threads.at_cases ht hj
      · cases hj
      · exact h.refused hj
    · obtain ⟨-, hj⟩ | ⟨-, hj⟩ := Threads.at_cases ht hj
      · cases hj
      · exact h.delivered hj
  | receive o hc =>
    obtain ⟨he, hk⟩ := hs.receive.holder ht
    rw [TaskState.receive_of_message he hk hc]
    exact h.receive ht hc hk

/-- A turn keeps account of the message. -/
theorem accounted_turn (h : Accounted c) (hs : Single c) (i : Nat) : Accounted (c.turn i) := by
  obtain hsame | ⟨t, s', t', ht, hm, hnext⟩ := turn_cases c i
  · rw [hsame]
    exact h
  · rw [hnext]
    exact accounted_move h hs ht hm

end Accounted

/-! ## One writer -/

/-- How many steps a writer has yet to make. -/
def Thread.remaining {α : Type} : Thread α → Nat
  | .writing _ => 2
  | .sending _ => 1
  | _ => 0

namespace Threads

variable {α : Type}

/-- A new state with a writer, which is thread 0, and with readers. -/
def deliver (o : TaskOutcome α) (readers : Nat) : Threads α :=
  start (.settle o :: List.replicate readers .get)

/-- How many steps thread 0 has yet to make. -/
def pending (c : Threads α) : Nat := (c.threads[0]?.map Thread.remaining).getD 0

/-- What is pending is told by where thread 0 stands. -/
theorem pending_of_at {c : Threads α} {t : Thread α} (ht : c.At 0 t) : c.pending = t.remaining := by
  rw [pending, show c.threads[0]? = some t from ht]
  rfl

/-- A turn of a reader is no step of the writer. -/
theorem pending_turn_reader (c : Threads α) (i : Nat) : (c.turn (i + 1)).pending = c.pending := by
  obtain hsame | ⟨t, s', t', -, -, hnext⟩ := turn_cases c (i + 1)
  · rw [hsame]
  · rw [hnext]
    unfold pending
    rw [List.getElem?_set_ne (Nat.succ_ne_zero i)]

/-! ### Turns of readers -/

variable {c : Threads α} {i : Nat} {o : TaskOutcome α}

/-- A thread that does not wait makes its step when it is its turn. -/
theorem turn_of_advance? {t t' : Thread α} {s' : TaskState α} (ht : c.At i t)
    (h : t.advance? c.state = some (s', t')) :
    c.turn i = { state := s', threads := c.threads.set i t' } := by
  unfold turn
  rw [show c.threads[i]? = some t from ht]
  simp only [h]

/-- A reader that is done stays so. -/
theorem at_read_turn {r : Except StateError α} (ht : c.At i (.read r)) (j : Nat) :
    (c.turn j).At i (.read r) := by
  obtain hsame | ⟨t, s', t', hj, hm, hnext⟩ := turn_cases c j
  · rwa [hsame]
  · have hji : j ≠ i := by
      rintro rfl
      cases At.unique (c := c) hj ht
      cases hm
    rw [hnext]
    exact (at_other hji s' t' _).mpr ht

/-- A reader that finds an outcome is done with its next turn. -/
theorem at_turn_of_kept (ht : c.At i .reading) (hk : c.state.kept = some o) :
    (c.turn i).At i (.read o.reading) := by
  have hstep : Thread.advance? c.state .reading = some (c.state, .read o.reading) := by
    rw [Thread.advance?, hk]
  rw [turn_of_advance? ht hstep]
  exact at_moved ht _ _

/-- So is the reader behind the gate, if there is a message for it. -/
theorem turn_of_message (ht : c.At i .receiving) (hc : c.state.channel = some o) :
    c.turn i = { state := c.state.receive, threads := c.threads.set i (.read o.reading) } := by
  refine turn_of_advance? ht ?_
  rw [Thread.advance?, hc]

end Threads

/-- The state is settled with an outcome that no reader waits for in vain. -/
structure Fulfilled {α : Type} (o : TaskOutcome α) (readers : Nat) (c : Threads α) : Prop where
  settled : c.state.settled = true
  available : c.state.kept = some o ∨ c.state.channel = some o
  /-- After a turn of some reader, any reader is done with its own next turn. -/
  answered : ∀ i < readers, ∃ j, ((c.turn (j + 1)).turn (i + 1)).At (i + 1) (.read o.reading)

/-- One writer of an outcome and its readers, in a configuration that they can reach. -/
structure Served {α : Type} (o : TaskOutcome α) (readers : Nat) (c : Threads α) : Prop where
  single : Single c
  accounted : Accounted c
  operations : c.threads.map Thread.operation = .settle o :: List.replicate readers .get

namespace Served

variable {α : Type} {o : TaskOutcome α} {readers : Nat} {c : Threads α}

/-- A new state serves its writer and readers. -/
theorem start (o : TaskOutcome α) (readers : Nat) :
    Served o readers (Threads.deliver o readers) where
  single := single_start _
  accounted := accounted_start _
  operations := by simp [Threads.deliver, Threads.start, Thread.ofOperation, Thread.operation]

/-- A turn leads to a configuration that the writer and the readers can reach. -/
theorem turn (h : Served o readers c) (i : Nat) : Served o readers (c.turn i) where
  single := single_turn h.single i
  accounted := accounted_turn h.accounted h.single i
  operations := (operations_turn c i).trans h.operations

/-- Thread 0 is the writer, and all others are readers. -/
theorem operation_of_at (h : Served o readers c) {i : Nat} {t : Thread α} (ht : c.At i t) :
    (.settle o :: List.replicate readers .get)[i]? = some t.operation := by
  rw [← h.operations, List.getElem?_map, show c.threads[i]? = some t from ht]
  rfl

/-- The only writer is thread 0. -/
theorem eq_of_settle (h : Served o readers c) {i : Nat} {t : Thread α} {p : TaskOutcome α}
    (ht : c.At i t) (hp : t.operation = .settle p) : i = 0 ∧ p = o := by
  have hi := h.operation_of_at ht
  rw [hp] at hi
  cases i with
  | zero =>
    cases hi
    exact ⟨rfl, rfl⟩
  | succ i =>
    rw [List.getElem?_cons_succ] at hi
    cases List.eq_of_mem_replicate (List.mem_of_getElem? hi)

/-- Only thread 0 can win, and with its own outcome. -/
theorem eq_of_wins (h : Served o readers c) {i : Nat} {t : Thread α} {p : TaskOutcome α}
    (ht : c.At i t) (hw : Wins p t) : i = 0 ∧ p = o := by
  cases hw with
  | sending => exact h.eq_of_settle ht rfl
  | sent => exact h.eq_of_settle ht rfl

/-- If the state is settled, then the writer has settled it. -/
theorem wins_of_settled (h : Served o readers c) (hs : c.state.settled = true) {t : Thread α}
    (ht : c.At 0 t) : Wins o t := by
  obtain ⟨j, t', p, hj, hwins⟩ := h.single.winner.claimed.mp hs
  obtain ⟨rfl, rfl⟩ := h.eq_of_wins hj hwins
  cases hj.unique ht
  exact hwins

/-- Thread 0 is the writer, at one of three places. -/
theorem writer_cases (h : Served o readers c) :
    c.At 0 (.writing o) ∨ c.At 0 (.sending o) ∨ ∃ result, c.At 0 (.wrote o result) := by
  cases hw : c.threads[0]? with
  | none =>
    have hthread := congrArg (·[0]?) h.operations
    simp [hw] at hthread
  | some t =>
    have ht := h.operation_of_at hw
    cases t with
    | writing p =>
      cases ht
      exact .inl hw
    | sending p =>
      cases ht
      exact .inr (.inl hw)
    | wrote p result =>
      cases ht
      exact .inr (.inr ⟨result, hw⟩)
    | reading => cases ht
    | receiving => cases ht
    | read r => cases ht

/-- What is kept is the outcome of the writer. -/
theorem eq_of_kept (h : Served o readers c) {p : TaskOutcome α} (hk : c.state.kept = some p) :
    p = o := by
  obtain ⟨-, w, hw⟩ := h.single.winner.memo hk
  exact (h.eq_of_wins hw .sent).2

/-- Every reader that is done has read the outcome of the writer. -/
theorem eq_reading (h : Served o readers c) {i : Nat} {r : Except StateError α}
    (hi : c.At i (.read r)) : r = o.reading := by
  obtain ⟨p, hk, rfl⟩ := h.single.receive.answered hi
  rw [h.eq_of_kept hk]

/-- The writer is not refused: nobody else could have come first. -/
theorem settled_of_wrote (h : Served o readers c) {result : Except StateError Unit}
    (hw : c.At 0 (.wrote o result)) : result = .ok () ∧ c.state.settled = true := by
  cases result with
  | ok done => exact ⟨rfl, h.single.winner.claimed.mpr ⟨0, _, o, hw, .sent⟩⟩
  | error e => cases h.wins_of_settled (h.accounted.refused hw) hw

/-- Once the writer is done, its outcome is where the readers find it. -/
theorem available_of_wrote (h : Served o readers c) {result : Except StateError Unit}
    (hw : c.At 0 (.wrote o result)) : c.state.channel = some o ∨ c.state.kept = some o := by
  obtain ⟨rfl, -⟩ := h.settled_of_wrote hw
  exact h.accounted.delivered hw

/-- Thread `i + 1` is a reader. -/
theorem exists_reader (h : Served o readers c) {i : Nat} (hi : i < readers) :
    ∃ t, c.At (i + 1) t ∧ t.operation = .get := by
  have hthread := congrArg (·[i + 1]?) h.operations
  simp only [List.getElem?_map, List.getElem?_cons_succ, List.getElem?_replicate, if_pos hi,
    Option.map_eq_some_iff] at hthread
  exact hthread

/-- Once the writer is done, no reader waits in vain: after a turn of some reader, it is done with
its own next turn. -/
theorem exists_read (h : Served o readers c) {result : Except StateError Unit}
    (hw : c.At 0 (.wrote o result)) {i : Nat} (hi : i < readers) :
    ∃ j, ((c.turn (j + 1)).turn (i + 1)).At (i + 1) (.read o.reading) := by
  have hsent : c.state.kept = none → c.state.channel = some o := by
    intro hk
    obtain hc | hc := h.available_of_wrote hw
    · exact hc
    · exact absurd (hk.symm.trans hc) nofun
  obtain ⟨t, ht, hget⟩ := h.exists_reader hi
  cases t with
  | writing p => cases hget
  | sending p => cases hget
  | wrote p r => cases hget
  | read r =>
    cases h.eq_reading ht
    exact ⟨i, Threads.at_read_turn (Threads.at_read_turn ht _) _⟩
  | receiving =>
    have hc := hsent (h.single.receive.holder ht).2
    refine ⟨i, Threads.at_read_turn ?_ _⟩
    rw [Threads.turn_of_message ht hc]
    exact Threads.at_moved ht _ _
  | reading =>
    cases hk : c.state.kept with
    | some p =>
      cases h.eq_of_kept hk
      exact ⟨i, Threads.at_read_turn (Threads.at_turn_of_kept ht hk) _⟩
    | none =>
      have hc := hsent hk
      cases he : c.state.entered with
      | false =>
        -- The reader passes the gate itself and finds the message.
        have hstep : Thread.advance? c.state .reading = some (c.state.enter, .receiving) := by
          simp only [Thread.advance?, hk, he, Bool.false_eq_true, if_false]
        have hnext := Threads.at_moved ht
          { c.state with entered := true, receives := c.state.receives + 1 } .receiving
        refine ⟨i, ?_⟩
        rw [Threads.turn_of_advance? ht hstep, TaskState.enter_of_free hk he,
          Threads.turn_of_message hnext hc]
        exact Threads.at_moved hnext _ _
      | true =>
        -- Another reader is behind the gate and takes the message first.
        obtain ⟨j, hj⟩ := h.accounted.attended he hk
        have hji : j ≠ i + 1 := by
          rintro rfl
          cases hj.unique ht
        cases j with
        | zero => cases hj.unique hw
        | succ j =>
          refine ⟨j, Threads.at_turn_of_kept ?_ ?_⟩
          · rw [Threads.turn_of_message hj hc]
            exact (Threads.at_other hji _ _ _).mpr ht
          · rw [Threads.turn_of_message hj hc, TaskState.receive_of_message he hk hc]

/-! ### Steps of the writer -/

/-- When the writer has no step to make any more, its readers have nothing to wait for. -/
theorem fulfilled (h : Served o readers c) (hp : c.pending = 0) : Fulfilled o readers c := by
  obtain hw | hw | ⟨result, hw⟩ := h.writer_cases
  · cases (Threads.pending_of_at hw).symm.trans hp
  · cases (Threads.pending_of_at hw).symm.trans hp
  · exact ⟨(h.settled_of_wrote hw).2, (h.available_of_wrote hw).symm,
      fun i hi => h.exists_read hw hi⟩

/-- The writer never waits: each of its turns is a step, until it is done. -/
theorem pending_turn_writer (h : Served o readers c) :
    (c.turn 0).pending = c.pending - 1 := by
  obtain hw | hw | ⟨result, hw⟩ := h.writer_cases
  · have hfree : c.state.settled = false := by
      rw [Bool.eq_false_iff]
      intro hs
      cases h.wins_of_settled hs hw
    have hstep : Thread.advance? c.state (.writing o) =
        some ({ c.state with settled := true }, .sending o) := by
      simp only [Thread.advance?, TaskState.claim, hfree, Bool.not_false]
    rw [Threads.turn_of_advance? hw hstep, Threads.pending_of_at hw,
      Threads.pending_of_at (Threads.at_moved hw _ _)]
    rfl
  · have hstep : Thread.advance? c.state (.sending o) =
        some (c.state.send o, .wrote o (.ok ())) := by
      rw [Thread.advance?, (h.single.winner.unsent hw).1]
    rw [Threads.turn_of_advance? hw hstep, Threads.pending_of_at hw,
      Threads.pending_of_at (Threads.at_moved hw _ _)]
    rfl
  · have hsame : c.turn 0 = c := by
      unfold Threads.turn
      simp only [show c.threads[0]? = _ from hw, Thread.advance?]
    rw [hsame, Threads.pending_of_at hw]
    rfl

end Served

end Desugar
