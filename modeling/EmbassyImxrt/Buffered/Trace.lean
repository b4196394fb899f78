import EmbassyImxrt.Buffered.System

/-!
# Runs as data

`Step` says which moves the system may make; this file makes them executable.
An `Action` names a move with the choices it needs (the character, the
hardware input of a handler run, the task, the buffer), `Sys.next` performs it
when its guard holds, and `run` replays a list of actions.  `reach_of_run`
turns a replayed run into a reachable state, so that a run refuting a property
is checked by evaluating it.

`RingReachable` is the closure under every move but the single-character read,
the runs of a reader that uses only the ring's interfaces.
-/

namespace EmbassyImxrt.Buffered

/-- The moves of `Step`, as data. -/
inductive Action
  | receive (e : RxEntry)
  | rxdHigh
  | interrupt (hw : Hardware)
  | readPop (t : Task) (len : Nat)
  | fillPop (t : Task)
  | take
  | rxRegister
  | consume (k : Nat)
  | rxDrop
  | release
  | serialRead (rxerr : Bool)
  | writePoll (t : Task) (buf : List UInt8)
  | flushPoll (t : Task)
  | txRegister
  | txDrop
  | blockingWrite (buf : List UInt8)
  deriving Repr

namespace Sys

/-- Perform an action, if its guard holds. -/
def next (s : Sys) : Action → Option Sys
  | .receive e => some (s.receive e)
  | .rxdHigh => some s.rxdHigh
  | .interrupt hw =>
    if s.uart.fires hw ∧ hw.rxerr = s.uart.rxOverrun then some (s.interrupt hw) else none
  | .readPop t len => if s.rx.pollable then some (s.readPop t len) else none
  | .fillPop t => if s.rx.pollable then some (s.fillPop t) else none
  | .take =>
    match s.rx with
    | .popped op t mark => some (s.take op t mark)
    | _ => none
  | .rxRegister =>
    match s.rx with
    | .checked op t _ => some (s.rxRegister op t)
    | _ => none
  | .consume k =>
    match s.rx with
    | .holding slice => if k ≤ slice.length then some (s.consume slice k) else none
    | _ => none
  | .rxDrop =>
    match s.rx with
    | .suspended .. => some { s with rx := .idle }
    | _ => none
  | .release =>
    match s.rx with
    | .holding _ => some { s with rx := .idle }
    | _ => none
  | .serialRead rxerr =>
    if s.rx = .idle ∧ rxerr = s.uart.rxOverrun then some (s.serialRead rxerr) else none
  | .writePoll t buf => if s.tx.pollable then some (s.writePoll t buf) else none
  | .flushPoll t => if s.tx.pollable then some (s.flushPoll t) else none
  | .txRegister =>
    match s.tx with
    | .checked op t _ => some (s.txRegister op t)
    | _ => none
  | .txDrop =>
    match s.tx with
    | .suspended .. => some { s with tx := .idle }
    | _ => none
  | .blockingWrite buf => if s.tx = .idle then some (s.blockingWrite buf) else none

/-- Every action performed is a step. -/
theorem next_step {s s' : Sys} {a : Action} (h : s.next a = some s') : Step s s' := by
  cases a with
  | receive e => cases h; exact .receive s e
  | rxdHigh => cases h; exact .rxdHigh s
  | interrupt hw =>
    obtain ⟨⟨hf, hrxerr⟩, h⟩ := Option.ite_none_right_eq_some.mp h
    cases h; exact .interrupt s hw hf hrxerr
  | readPop t len =>
    obtain ⟨hp, h⟩ := Option.ite_none_right_eq_some.mp h
    cases h; exact .readPop s t len hp
  | fillPop t =>
    obtain ⟨hp, h⟩ := Option.ite_none_right_eq_some.mp h
    cases h; exact .fillPop s t hp
  | take =>
    simp only [next] at h
    split at h
    next op t mark hrx => cases h; exact .take s op t mark hrx
    next => cases h
  | rxRegister =>
    simp only [next] at h
    split at h
    next op t mark hrx => cases h; exact .rxRegister s op t mark hrx
    next => cases h
  | consume k =>
    simp only [next] at h
    split at h
    next slice hrx =>
      obtain ⟨hk, h⟩ := Option.ite_none_right_eq_some.mp h
      cases h; exact .consume s slice k hrx hk
    next => cases h
  | rxDrop =>
    simp only [next] at h
    split at h
    next op t hrx => cases h; exact .rxDrop s op t hrx
    next => cases h
  | release =>
    simp only [next] at h
    split at h
    next slice hrx => cases h; exact .release s slice hrx
    next => cases h
  | serialRead rxerr =>
    obtain ⟨⟨hp, hrxerr⟩, h⟩ := Option.ite_none_right_eq_some.mp h
    cases h; exact .serialRead s rxerr hp hrxerr
  | writePoll t buf =>
    obtain ⟨hp, h⟩ := Option.ite_none_right_eq_some.mp h
    cases h; exact .writePoll s t buf hp
  | flushPoll t =>
    obtain ⟨hp, h⟩ := Option.ite_none_right_eq_some.mp h
    cases h; exact .flushPoll s t hp
  | txRegister =>
    simp only [next] at h
    split at h
    next op t mark htx => cases h; exact .txRegister s op t mark htx
    next => cases h
  | txDrop =>
    simp only [next] at h
    split at h
    next op t htx => cases h; exact .txDrop s op t htx
    next => cases h
  | blockingWrite buf =>
    obtain ⟨hp, h⟩ := Option.ite_none_right_eq_some.mp h
    cases h; exact .blockingWrite s buf hp

/-- What a move does: a character arriving, the line going high, a handler run,
a single-character read, or a step of a task that leaves the line alone. -/
theorem next_cases_shape {s s' : Sys} {a : Action} (h : s.next a = some s') :
    (∃ e, a = .receive e ∧ s' = s.receive e) ∨ (a = .rxdHigh ∧ s' = s.rxdHigh) ∨
      (∃ hw, a = .interrupt hw ∧ s' = s.interrupt hw) ∨
      (∃ rxerr, a = .serialRead rxerr ∧ s' = s.serialRead rxerr) ∨ s.LineFrame s' := by
  cases a with
  | receive e => cases h; exact .inl ⟨e, rfl, rfl⟩
  | rxdHigh => cases h; exact .inr (.inl ⟨rfl, rfl⟩)
  | interrupt hw =>
    obtain ⟨-, h⟩ := Option.ite_none_right_eq_some.mp h
    cases h; exact .inr (.inr (.inl ⟨hw, rfl, rfl⟩))
  | serialRead rxerr =>
    obtain ⟨-, h⟩ := Option.ite_none_right_eq_some.mp h
    cases h; exact .inr (.inr (.inr (.inl ⟨rxerr, rfl, rfl⟩)))
  | _ =>
    refine .inr (.inr (.inr (.inr ?_)))
    simp only [Sys.next] at h
    repeat' split at h
    all_goals cases h
    all_goals first
      | exact s.readPop_lineFrame .. | exact s.fillPop_lineFrame ..
      | exact s.take_lineFrame .. | exact s.rxRegister_lineFrame ..
      | exact s.consume_lineFrame .. | exact s.setRx_lineFrame _
      | exact s.writePoll_lineFrame .. | exact s.flushPoll_lineFrame ..
      | exact s.txRegister_lineFrame .. | exact s.setTx_lineFrame _
      | exact s.blockingWrite_lineFrame ..

end Sys

/-- Replay a list of actions; `none` as soon as a guard fails. -/
def run : Sys → List Action → Option Sys
  | s, [] => some s
  | s, a :: rest => (s.next a).bind (run · rest)

theorem run_reachable {s₀ : Sys} :
    ∀ {s s' : Sys} {l : List Action}, Reachable s₀ s → run s l = some s' → Reachable s₀ s'
  | _, _, [], hs, h => by cases h; exact hs
  | _, _, _ :: _, hs, h => by
    obtain ⟨_, h₁, h⟩ := Option.bind_eq_some.mp h
    exact run_reachable (hs.step (Sys.next_step h₁)) h

/-- A replayed run whose last state passes the test `p` gives a reachable state
that passes it. -/
theorem reach_of_run (s₀ : Sys) (l : List Action) (p : Sys → Bool)
    (h : (run s₀ l).map p = some true) : ∃ s, Reachable s₀ s ∧ p s := by
  cases hr : run s₀ l with
  | none => simp [hr] at h
  | some s => exact ⟨s, run_reachable .init hr, by simpa [hr] using h⟩

/-! ## Runs without the single-character read -/

/-- The single-character read, among the moves. -/
def Action.isSerialRead : Action → Bool
  | .serialRead _ => true
  | _ => false

/-- A move of a system whose reader uses only the ring's interfaces, as the
example's `read_exact` does: any move but the single-character read. -/
def RingStep (s s' : Sys) : Prop :=
  ∃ a : Action, a.isSerialRead = false ∧ s.next a = some s'

/-- The states such moves reach from a construction. -/
inductive RingReachable (s₀ : Sys) : Sys → Prop
  | init : RingReachable s₀ s₀
  | step {s s' : Sys} : RingReachable s₀ s → RingStep s s' → RingReachable s₀ s'

theorem RingStep.receive (s : Sys) (e : RxEntry) : RingStep s (s.receive e) :=
  ⟨.receive e, rfl, rfl⟩

theorem RingStep.rxdHigh (s : Sys) : RingStep s s.rxdHigh :=
  ⟨.rxdHigh, rfl, rfl⟩

theorem RingStep.interrupt (s : Sys) (hw : Hardware) (hfires : s.uart.fires hw)
    (hrxerr : hw.rxerr = s.uart.rxOverrun) : RingStep s (s.interrupt hw) :=
  ⟨.interrupt hw, rfl, if_pos ⟨hfires, hrxerr⟩⟩

theorem RingStep.readPop (s : Sys) (t : Task) (len : Nat) (hrx : s.rx.pollable) :
    RingStep s (s.readPop t len) :=
  ⟨.readPop t len, rfl, if_pos hrx⟩

theorem RingStep.writePoll (s : Sys) (t : Task) (buf : List UInt8) (htx : s.tx.pollable) :
    RingStep s (s.writePoll t buf) :=
  ⟨.writePoll t buf, rfl, if_pos htx⟩

theorem RingStep.step {s s' : Sys} (hs : RingStep s s') : Step s s' :=
  Sys.next_step hs.choose_spec.2

theorem RingReachable.reachable {s₀ s : Sys} (h : RingReachable s₀ s) : Reachable s₀ s := by
  induction h with
  | init => exact .init
  | step _ hs ih => exact ih.step hs.step

/-- What a move other than the single-character read does: a character
arriving, the line going high, a handler run, or a step of a task that leaves
the line alone. -/
theorem RingStep.cases_shape {s s' : Sys} (hs : RingStep s s') :
    (∃ e, s' = s.receive e) ∨ s' = s.rxdHigh ∨ (∃ hw, s' = s.interrupt hw) ∨ s.LineFrame s' := by
  obtain ⟨a, ha, hnext⟩ := hs
  rcases Sys.next_cases_shape hnext with ⟨e, -, rfl⟩ | ⟨-, rfl⟩ | ⟨hw, -, rfl⟩ | ⟨_, rfl, -⟩ | hf
  · exact .inl ⟨e, rfl⟩
  · exact .inr (.inl rfl)
  · exact .inr (.inr (.inl ⟨hw, rfl⟩))
  · cases ha
  · exact .inr (.inr (.inr hf))

/-- An invariant that holds at the start and is kept by every move but the
single-character read holds over every such run. -/
theorem RingReachable.induct {s₀ : Sys} {P : Sys → Prop} (h₀ : P s₀)
    (hstep : ∀ s s', P s → RingStep s s' → P s') {s : Sys} (h : RingReachable s₀ s) : P s := by
  induction h with
  | init => exact h₀
  | step _ hs ih => exact hstep _ _ ih hs

end EmbassyImxrt.Buffered
