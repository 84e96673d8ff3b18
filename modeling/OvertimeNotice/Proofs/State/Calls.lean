import OvertimeNotice.State.Backend
import OvertimeNotice.State.Warning

/-!
# Sequences of calls to a backend

What can be asked of a backend, and the answers to a sequence of calls, each on the state that the
one before it left.

* `BackendEvent.loaded?`, `BackendEvent.readWarning?`: the month that was to be loaded, and the
  warning if it could not be.
* `Backend.performAll`: calls made one after the other.
* `Backend.Happens`: what is asked and answered between one state and another.
* `Backend.recorded`: the same backend, with a record of what was asked of it and answered.
* `Happens.record`: what happens is what is put on record.
-/

namespace OvertimeNotice

/-- A call to a backend. -/
inductive BackendCall where
  | load (month : Month)
  | upsert (mark : Mark)
  | purge (month : Month)
deriving DecidableEq, Repr

/-- A call that was made, with its answer. -/
inductive BackendEvent where
  | load (month : Month) (answer : Except Failure (List Mark))
  | upsert (mark : Mark) (answer : Except Failure Unit)
  | purge (month : Month) (answer : Except Failure Nat)

namespace BackendEvent

/-- The call without its answer. -/
def call : BackendEvent → BackendCall
  | load month _ => .load month
  | upsert mark _ => .upsert mark
  | purge month _ => .purge month

/-- The month that was to be loaded. -/
def loaded? : BackendEvent → Option Month
  | load month _ => some month
  | _ => none

/-- The warning about a month that could not be loaded. -/
def readWarning? : BackendEvent → Option Warning
  | load month (.error f) => some (.stateReadFailed month f.message)
  | _ => none

theorem readWarning?_eq_some {v : BackendEvent} {w : Warning} :
    v.readWarning? = some w ↔
      ∃ month f, v = load month (.error f) ∧ w = .stateReadFailed month f.message := by
  constructor
  · intro h
    rcases v with ⟨month, f | es⟩ | _ | _
    case load.error => exact ⟨month, f, rfl, (Option.some.inj h).symm⟩
    all_goals exact nomatch h
  · rintro ⟨month, f, rfl, rfl⟩
    rfl

theorem isSome_loaded? {v : BackendEvent} (h : v.readWarning?.isSome = true) :
    v.loaded?.isSome = true := by
  obtain ⟨w, hw⟩ := Option.isSome_iff_exists.mp h
  obtain ⟨month, f, rfl, -⟩ := readWarning?_eq_some.mp hw
  rfl

end BackendEvent

/-- A state of a backend, with what happened on the way to it, in order. -/
structure Recorded (σ : Type) where
  state : σ
  events : List BackendEvent

/-- The calls on record, in order. -/
def Recorded.calls {σ : Type} (s : Recorded σ) : List BackendCall := s.events.map BackendEvent.call

namespace Backend

variable {σ : Type}

/-- One call. -/
def perform (b : Backend σ) (c : BackendCall) (s : σ) : BackendEvent × σ :=
  match c with
  | .load month => (b.load month s).map (.load month) id
  | .upsert mark => (b.upsert mark s).map (.upsert mark) id
  | .purge month => (b.purge month s).map (.purge month) id

/-- What happens when calls are made one after the other, and the state after them. -/
def performAll (b : Backend σ) : List BackendCall → σ → List BackendEvent × σ
  | [], s => ([], s)
  | c :: cs, s =>
    let r := b.perform c s
    let more := performAll b cs r.2
    (r.1 :: more.1, more.2)

/-- The same backend, which keeps a record. -/
def recorded (b : Backend σ) : Backend (Recorded σ) where
  load m s := let r := b.load m s.state; (r.1, ⟨r.2, s.events ++ [.load m r.1]⟩)
  upsert e s := let r := b.upsert e s.state; (r.1, ⟨r.2, s.events ++ [.upsert e r.1]⟩)
  purge m s := let r := b.purge m s.state; (r.1, ⟨r.2, s.events ++ [.purge m r.1]⟩)

theorem call_perform (b : Backend σ) (c : BackendCall) (s : σ) : (b.perform c s).1.call = c := by
  cases c <;> rfl

/-- Every call that is made is answered, in order. -/
theorem calls_performAll (b : Backend σ) (calls : List BackendCall) (s : σ) :
    (b.performAll calls s).1.map BackendEvent.call = calls := by
  induction calls generalizing s with
  | nil => rfl
  | cons c cs ih => rw [performAll, List.map_cons, call_perform, ih]

theorem performAll_append (b : Backend σ) (calls calls' : List BackendCall) (s : σ) :
    b.performAll (calls ++ calls') s =
      ((b.performAll calls s).1 ++ (b.performAll calls' (b.performAll calls s).2).1,
        (b.performAll calls' (b.performAll calls s).2).2) := by
  induction calls generalizing s with
  | nil => rfl
  | cons c cs ih => rw [List.cons_append, performAll, ih, performAll, List.cons_append]

/-! ## What happens -/

/-- On the way from one state to another these calls are made, and are answered so. -/
def Happens (b : Backend σ) (s : σ) (events : List BackendEvent) (s' : σ) : Prop :=
  b.performAll (events.map BackendEvent.call) s = (events, s')

variable {b : Backend σ} {s s' s'' : σ} {events events' : List BackendEvent}

theorem happens_nil (b : Backend σ) (s : σ) : b.Happens s [] s := rfl

theorem happens_load (b : Backend σ) (month : Month) (s : σ) :
    b.Happens s [.load month (b.load month s).1] (b.load month s).2 := rfl

theorem happens_upsert (b : Backend σ) (mark : Mark) (s : σ) :
    b.Happens s [.upsert mark (b.upsert mark s).1] (b.upsert mark s).2 := rfl

theorem Happens.append (h : b.Happens s events s') (h' : b.Happens s' events' s'') :
    b.Happens s (events ++ events') s'' := by
  unfold Happens at h h' ⊢
  rw [List.map_append, performAll_append, h, h']

theorem perform_recorded (b : Backend σ) (c : BackendCall) (s : Recorded σ) :
    b.recorded.perform c s = ((b.perform c s.state).1,
      ⟨(b.perform c s.state).2, s.events ++ [(b.perform c s.state).1]⟩) := by
  cases c <;> rfl

theorem performAll_recorded (b : Backend σ) (calls : List BackendCall) (s : Recorded σ) :
    b.recorded.performAll calls s = ((b.performAll calls s.state).1,
      ⟨(b.performAll calls s.state).2, s.events ++ (b.performAll calls s.state).1⟩) := by
  induction calls generalizing s with
  | nil => rw [performAll, performAll, List.append_nil]
  | cons c cs ih =>
    rw [performAll, performAll, perform_recorded, ih, List.append_assoc, List.singleton_append]

/-- A record grows by what happens. -/
theorem Happens.record {s s' : Recorded σ} (h : b.recorded.Happens s events s') :
    s'.events = s.events ++ events := by
  rw [Happens, performAll_recorded, Prod.mk.injEq] at h
  obtain ⟨hevents, rfl⟩ := h
  rw [hevents]

end Backend

end OvertimeNotice
