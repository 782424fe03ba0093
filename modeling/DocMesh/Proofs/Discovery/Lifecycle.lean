/-
# The life of a discovery service

A service is started, paused, resumed and stopped in any order, while datagrams arrive and silent peers are swept out.
A start waits for its port and may not get it, and the service may be stopped meanwhile. The table only changes while
the service runs; a service that has listened on a port never asks for another one; and a stop is final.

Main statements:

* `Course.run?_start` : a start is two events, between which others may come;
* `Course.table_perform?` : when an event changes the table;
* `Course.move_perform?` : what an event may do to the phase;
* `Keeps.run?`, `Sound.run?`, `Course.run?_of_stopped` : what any events keep;
* `life_cycle` : a service that is started, paused, resumed and stopped in any order.
-/
import DocMesh.Discovery.Service
import Mathlib.Data.List.Basic

namespace DocMesh.Discovery

/-! ## Courses -/

/-- A service and the start that is waiting for its port. -/
structure Course where
  service : Discovery
  waiting : Option Attempt := none
  deriving Inhabited

/-- What happens to a service. -/
inductive Event where
  /-- It is started or resumed. -/
  | start
  /-- The start that is waiting gets a port, or an error. -/
  | bound (result : Except NetworkError UInt16)
  | pause
  | stop
  /-- A datagram arrives from a host. -/
  | datagram (bytes : Bytes) (sender : IpAddress) (now : Int64)
  /-- The peers that have fallen silent are swept out. -/
  | sweep (now : Int64)

/-- May one port be asked for with this result? The port that is bound is the same one, or any other than 0 if it
was 0. -/
def Grants (asked : UInt16) : Except NetworkError UInt16 → Prop
  | .ok port => port ≠ 0 ∧ (asked ≠ 0 → port = asked)
  | .error _ => True

instance (asked : UInt16) : (result : Except NetworkError UInt16) → Decidable (Grants asked result)
  | .ok _ => inferInstanceAs (Decidable (_ ∧ _))
  | .error _ => isTrue trivial

namespace Course

/-- A new service. -/
def new (node : String) (config : DiscoveryConfig) (listening : UInt16) : Course :=
  ⟨{ node := node, config := config, listening := listening }, none⟩

/-- The course after an event; none if it cannot happen. One start ends before the next one begins. -/
def perform? (s : Course) : Event → Option Course
  | .start =>
    match s.waiting with
    | none => some ⟨s.service.begin.2, s.service.begin.1.toOption.join⟩
    | some _ => none
  | .bound result =>
    match s.waiting with
    | some a => if Grants a.port result then some ⟨(s.service.finish a result).2, none⟩ else none
    | none => none
  | .pause => some { s with service := s.service.pause }
  | .stop => some { s with service := s.service.stop }
  | .datagram bytes sender now => some { s with service := (s.service.hear bytes sender now).2 }
  | .sweep now => some { s with service := (s.service.sweep now).2 }

/-- The course after the given events, one after the other. -/
def run? (s : Course) (events : List Event) : Option Course := events.foldlM perform? s

variable {s t : Course} {e : Event} {events : List Event}

theorem run?_cons (s : Course) (e : Event) (events : List Event) :
    s.run? (e :: events) = (s.perform? e).bind (run? · events) := List.foldlM_cons

/-- What every event keeps is kept by any of them, one after the other. -/
theorem run?_induction {P : Course → Prop} (hstep : ∀ s e t, P s → s.perform? e = some t → P t) (h : P s)
    (hrun : s.run? events = some t) : P t := by
  induction events generalizing s with
  | nil =>
    cases hrun
    exact h
  | cons e events ih =>
    rw [run?_cons] at hrun
    obtain ⟨u, hu, hrun⟩ := Option.bind_eq_some_iff.1 hrun
    exact ih (hstep s e u h hu) hrun

theorem perform?_start_eq_some_iff :
    s.perform? .start = some t ↔
      s.waiting = none ∧ t = ⟨s.service.begin.2, s.service.begin.1.toOption.join⟩ := by
  obtain ⟨d, _ | a⟩ := s
  · simp [perform?, eq_comm]
  · simp [perform?]

theorem perform?_bound_eq_some_iff {result : Except NetworkError UInt16} :
    s.perform? (.bound result) = some t ↔
      ∃ a, s.waiting = some a ∧ Grants a.port result ∧ t = ⟨(s.service.finish a result).2, none⟩ := by
  obtain ⟨d, _ | a⟩ := s
  · simp [perform?]
  · rw [perform?]
    dsimp only
    split_ifs with hgrants
    · simp [hgrants, eq_comm]
    · simp [hgrants]

/-- A start is two events: it asks for a port, and it gets it or not. -/
theorem run?_start {d d' : Discovery} {a : Attempt} {bind : UInt16 → Except NetworkError UInt16}
    (hbegin : d.begin = (.ok (some a), d')) (hbind : Grants a.port (bind a.port)) :
    run? ⟨d, none⟩ [.start, .bound (bind a.port)] = some ⟨(d.start bind).2, none⟩ := by
  have hstart : perform? ⟨d, none⟩ .start = some ⟨d', some a⟩ :=
    perform?_start_eq_some_iff.2 ⟨rfl, by rw [hbegin]; rfl⟩
  have hbound : perform? ⟨d', some a⟩ (.bound (bind a.port)) = some ⟨(d'.finish a (bind a.port)).2, none⟩ :=
    perform?_bound_eq_some_iff.2 ⟨a, rfl, hbind, rfl⟩
  rw [run?_cons, hstart, Option.bind_some, run?_cons, hbound, Discovery.start, hbegin]
  rfl

end Course

/-! ## The table -/

theorem phase_hear (d : Discovery) (bytes : Bytes) (sender : IpAddress) (now : Int64) :
    (d.hear bytes sender now).2.phase = d.phase := by
  unfold hear
  split
  · rfl
  split
  · rfl
  split <;> rfl

theorem phase_sweep (d : Discovery) (now : Int64) : (d.sweep now).2.phase = d.phase := by
  unfold sweep
  split <;> rfl

theorem table_begin (d : Discovery) : d.begin.2.table = d.table := by
  unfold begin
  split <;> rfl

theorem table_finish (d : Discovery) (a : Attempt) (bound : Except NetworkError UInt16) :
    (d.finish a bound).2.table = d.table := by
  unfold finish
  split
  · split_ifs <;> rfl
  all_goals rfl

theorem table_pause (d : Discovery) : d.pause.table = d.table := by
  unfold pause
  split <;> rfl

theorem hear_of_not_isRunning {d : Discovery} (h : ¬ d.isRunning) (bytes : Bytes) (sender : IpAddress)
    (now : Int64) : d.hear bytes sender now = (false, d) := by
  simp [hear, h]

theorem sweep_of_not_isRunning {d : Discovery} (h : ¬ d.isRunning) (now : Int64) :
    d.sweep now = ([], d) := by
  simp [sweep, h]

/-- **When the table changes**: while the service runs and goes on running, by a datagram or a sweep, or at a stop, when
it is cleared. -/
theorem Course.table_perform? {s t : Course} {e : Event} (he : s.perform? e = some t)
    (hne : t.service.table ≠ s.service.table) :
    (s.service.isRunning = true ∧ t.service.phase = s.service.phase ∧
        ((∃ bytes sender now, e = .datagram bytes sender now) ∨ ∃ now, e = .sweep now)) ∨
      (e = .stop ∧ t.service.table = ∅) := by
  cases e with
  | start =>
    obtain ⟨-, rfl⟩ := Course.perform?_start_eq_some_iff.1 he
    exact absurd (table_begin s.service) hne
  | bound result =>
    obtain ⟨a, -, -, rfl⟩ := Course.perform?_bound_eq_some_iff.1 he
    exact absurd (table_finish s.service a result) hne
  | pause =>
    cases he
    exact absurd (table_pause s.service) hne
  | stop =>
    cases he
    exact Or.inr ⟨rfl, rfl⟩
  | datagram bytes sender now =>
    cases he
    refine Or.inl ⟨?_, phase_hear s.service bytes sender now, Or.inl ⟨bytes, sender, now, rfl⟩⟩
    by_contra hrunning
    exact hne (by rw [hear_of_not_isRunning hrunning])
  | sweep now =>
    cases he
    refine Or.inl ⟨?_, phase_sweep s.service now, Or.inr ⟨now, rfl⟩⟩
    by_contra hrunning
    exact hne (by rw [sweep_of_not_isRunning hrunning])

/-! ## The phase -/

/-- What may become of the phase and of the start that is waiting, in one event. -/
inductive Move : Phase → Option Attempt → Phase → Option Attempt → Prop where
  | stay (phase : Phase) (waiting : Option Attempt) : Move phase waiting phase waiting
  | first (port : UInt16) : Move .idle none .idle (some ⟨port, false⟩)
  | resume (port : UInt16) : Move (.paused port) none .idle (some ⟨port, true⟩)
  | failed (a : Attempt) : Move .idle (some a) (if a.resumed then .paused a.port else .idle) none
  | granted {port : UInt16} (a : Attempt) (h : Grants a.port (.ok port)) : Move .idle (some a) (.running port) none
  /-- A start ends and finds that it is not wanted any more. -/
  | overtaken {phase : Phase} (a : Attempt) (h : phase ≠ .idle) : Move phase (some a) phase none
  | pause (port : UInt16) (waiting : Option Attempt) : Move (.running port) waiting (.paused port) waiting
  | stop (phase : Phase) (waiting : Option Attempt) : Move phase waiting .stopped waiting

variable {phase phase' : Phase} {waiting waiting' : Option Attempt} {s t : Course} {e : Event}
  {events : List Event} {port : UInt16}

theorem move_begin (d : Discovery) : Move d.phase none d.begin.2.phase d.begin.1.toOption.join := by
  obtain ⟨node, config, listening, table, phase⟩ := d
  cases phase with
  | idle => exact .first config.port
  | running port => exact .stay (.running port) none
  | paused port => exact .resume port
  | stopped => exact .stay .stopped none

theorem finish_of_ne_idle {d : Discovery} (h : d.phase ≠ .idle) (a : Attempt) (result : Except NetworkError UInt16) :
    (d.finish a result).2 = d := by
  unfold finish
  split
  · exact absurd ‹_› h
  · rfl
  · exact absurd ‹_› h
  · rfl
  · rfl

theorem move_finish (d : Discovery) {a : Attempt} {result : Except NetworkError UInt16} (h : Grants a.port result) :
    Move d.phase (some a) (d.finish a result).2.phase none := by
  by_cases hidle : d.phase = .idle
  · obtain ⟨node, config, listening, table, phase⟩ := d
    cases hidle
    rcases result with fault | port
    · obtain ⟨port, _ | _⟩ := a
      · exact .failed ⟨port, false⟩
      · exact .failed ⟨port, true⟩
    · exact .granted a h
  · rw [finish_of_ne_idle hidle]
    exact .overtaken a hidle

theorem move_pause (d : Discovery) (waiting : Option Attempt) : Move d.phase waiting d.pause.phase waiting := by
  obtain ⟨node, config, listening, table, phase⟩ := d
  cases phase with
  | running port => exact .pause port waiting
  | idle => exact .stay .idle waiting
  | paused port => exact .stay (.paused port) waiting
  | stopped => exact .stay .stopped waiting

/-- **What an event may do to the phase.** -/
theorem Course.move_perform? (he : s.perform? e = some t) :
    Move s.service.phase s.waiting t.service.phase t.waiting := by
  cases e with
  | start =>
    obtain ⟨hwaiting, rfl⟩ := perform?_start_eq_some_iff.1 he
    rw [hwaiting]
    exact move_begin s.service
  | bound result =>
    obtain ⟨a, hwaiting, hgrants, rfl⟩ := perform?_bound_eq_some_iff.1 he
    rw [hwaiting]
    exact move_finish s.service hgrants
  | pause =>
    cases he
    exact move_pause s.service s.waiting
  | stop =>
    cases he
    exact .stop s.service.phase s.waiting
  | datagram bytes sender now =>
    cases he
    rw [phase_hear]
    exact .stay s.service.phase s.waiting
  | sweep now =>
    cases he
    rw [phase_sweep]
    exact .stay s.service.phase s.waiting

/-! ## The port -/

/-- The service has listened on the port, and no start asks for another one. -/
inductive Keeps (port : UInt16) : Phase → Option Attempt → Prop where
  /-- It listens on the port. -/
  | running : Keeps port (.running port) none
  /-- It will ask for the port when it is resumed. -/
  | paused : Keeps port (.paused port) none
  /-- It is asking for the port. -/
  | resuming : Keeps port .idle (some ⟨port, true⟩)
  /-- It was stopped, maybe while it was asking for the port. -/
  | stopped {waiting : Option Attempt} (h : ∀ a ∈ waiting, a = ⟨port, true⟩) : Keeps port .stopped waiting

namespace Keeps

/-- No other port is asked for. -/
theorem eq_of_mem (h : Keeps port phase waiting) : ∀ a ∈ waiting, a = ⟨port, true⟩ := by
  cases h with
  | running => simp
  | paused => simp
  | resuming => simp
  | stopped h => exact h

theorem move (hport : port ≠ 0) (h : Keeps port phase waiting) (hmove : Move phase waiting phase' waiting') :
    Keeps port phase' waiting' := by
  cases hmove with
  | stay => exact h
  | first => cases h
  | resume =>
    cases h
    exact .resuming
  | failed =>
    cases h
    exact .paused
  | granted a hgrants =>
    cases h
    rw [hgrants.2 hport]
    exact .running
  | overtaken a hidle =>
    cases h with
    | resuming => exact absurd rfl hidle
    | stopped => exact .stopped (by simp)
  | pause =>
    cases h
    exact .paused
  | stop => exact .stopped h.eq_of_mem

/-- A service that has listened on a port keeps it through any events. -/
theorem run? (hport : port ≠ 0) (h : Keeps port s.service.phase s.waiting) (hrun : s.run? events = some t) :
    Keeps port t.service.phase t.waiting :=
  Course.run?_induction (P := fun s => Keeps port s.service.phase s.waiting)
    (fun _ _ _ h he => h.move hport (Course.move_perform? he)) h hrun

end Keeps

/-- A service that was not stopped has never listened on a port, or it keeps the port. -/
inductive Sound : Phase → Option Attempt → Prop where
  | new : Sound .idle none
  | starting (port : UInt16) : Sound .idle (some ⟨port, false⟩)
  | stopped (waiting : Option Attempt) : Sound .stopped waiting
  | listened {port : UInt16} {phase : Phase} {waiting : Option Attempt} (hport : port ≠ 0)
    (h : Keeps port phase waiting) : Sound phase waiting

namespace Sound

theorem move (h : Sound phase waiting) (hmove : Move phase waiting phase' waiting') : Sound phase' waiting' := by
  cases h with
  | listened hport h => exact .listened hport (h.move hport hmove)
  | new =>
    cases hmove with
    | stay => exact .new
    | first port => exact .starting port
    | stop => exact .stopped none
  | starting port =>
    cases hmove with
    | stay => exact .starting port
    | failed => exact .new
    | granted a hgrants => exact .listened hgrants.1 .running
    | overtaken a hidle => exact absurd rfl hidle
    | stop => exact .stopped _
  | stopped =>
    cases hmove with
    | stay => exact .stopped waiting
    | overtaken => exact .stopped none
    | stop => exact .stopped waiting

/-- A new service is sound, and stays so through any events. -/
theorem run? {node : String} {config : DiscoveryConfig} {listening : UInt16}
    (hrun : (Course.new node config listening).run? events = some s) : Sound s.service.phase s.waiting :=
  Course.run?_induction (P := fun s => Sound s.service.phase s.waiting)
    (fun _ _ _ h he => h.move (Course.move_perform? he)) .new hrun

/-- A service that listens on a port keeps it, and no start is waiting. -/
theorem keeps_of_running (h : Sound (.running port) waiting) : port ≠ 0 ∧ Keeps port (.running port) waiting := by
  cases h with
  | listened hport h =>
    cases h
    exact ⟨hport, .running⟩

end Sound

/-! ## The end -/

theorem Move.eq_stopped (h : Move .stopped waiting phase' waiting') : phase' = .stopped := by
  cases h with
  | stay => rfl
  | overtaken => rfl
  | stop => rfl

/-- A service that was stopped stays so, and without peers. -/
theorem Course.run?_of_stopped (hphase : s.service.phase = .stopped) (htable : s.service.table = ∅)
    (hrun : s.run? events = some t) : t.service.phase = .stopped ∧ t.service.table = ∅ := by
  refine run?_induction (P := fun s => s.service.phase = .stopped ∧ s.service.table = ∅) ?_ ⟨hphase, htable⟩ hrun
  rintro s e t ⟨hphase, htable⟩ he
  constructor
  · have hmove := move_perform? he
    rw [hphase] at hmove
    exact hmove.eq_stopped
  · by_contra hne
    rw [← htable] at hne
    obtain ⟨hrunning, -⟩ | ⟨-, hcleared⟩ := table_perform? he hne
    · rw [isRunning, hphase] at hrunning
      cases hrunning
    · exact hne (hcleared.trans htable.symm)

theorem start_of_stopped {d : Discovery} (h : d.phase = .stopped) (bind : UInt16 → Except NetworkError UInt16) :
    d.start bind = (.error .stopped, d) := by
  simp [start, begin, h]

/-- A start that was waiting when the service was stopped fails, whether it gets its port or not. -/
theorem finish_of_stopped {d : Discovery} (h : d.phase = .stopped) (a : Attempt)
    (result : Except NetworkError UInt16) :
    d.finish a result = (match result with
      | .ok _ => .error .stopped
      | .error e => .error e, d) := by
  rcases result with e | port <;> simp [finish, h]

/-- A service that is paused is resumed on its port or stays paused. -/
theorem start_of_paused {d : Discovery} (h : d.phase = .paused port) (bind : UInt16 → Except NetworkError UInt16) :
    d.start bind = (match bind port with
      | .ok bound => (.ok (), { d with phase := .running bound })
      | .error e => (.error e, d)) := by
  obtain ⟨node, config, listening, table, phase⟩ := d
  cases h
  rcases hbound : bind port with e | bound <;> simp [start, begin, finish, hbound]

/-! ## A whole life -/

/-- **The life of a discovery service.** A service is started, paused, resumed and stopped in any order, each bind ends
well or badly, datagrams arrive and silent peers are swept out in between, and a stop may overtake a start. At any time
then, the table only changes by a datagram or a sweep while the service runs, or by a stop, which clears it. From a
pause on, the service asks for no port but the one on which it was listening, and as long as it is not stopped it
listens on it, or is asking for it, or will ask for it, even if it has been refused. From a stop on, the service never
runs, its table is empty, every start is refused, and a start that was waiting fails. -/
theorem life_cycle (node : String) (config : DiscoveryConfig) (listening : UInt16)
    (hrun : (Course.new node config listening).run? events = some s) :
    (∀ e t, s.perform? e = some t → t.service.table ≠ s.service.table →
      (s.service.isRunning = true ∧ t.service.phase = s.service.phase ∧
          ((∃ bytes sender now, e = .datagram bytes sender now) ∨ ∃ now, e = .sweep now)) ∨
        (e = .stop ∧ t.service.table = ∅)) ∧
      (∀ port, s.service.phase = .running port → ∀ later t, s.run? (.pause :: later) = some t →
        Keeps port t.service.phase t.waiting ∧
          (t.service.phase = .paused port → ∀ bind, t.service.start bind = (match bind port with
            | .ok bound => (.ok (), { t.service with phase := .running bound })
            | .error e => (.error e, t.service)))) ∧
      ∀ later t, s.run? (.stop :: later) = some t →
        t.service.phase = .stopped ∧ t.service.table = ∅ ∧
          (∀ bind, t.service.start bind = (.error .stopped, t.service)) ∧
          ∀ a ∈ t.waiting, ∀ result, t.service.finish a result = (match result with
            | .ok _ => .error .stopped
            | .error e => .error e, t.service) := by
  refine ⟨fun e t he hne => Course.table_perform? he hne, ?_, ?_⟩
  · intro port hphase later t ht
    have hsound : Sound s.service.phase s.waiting := Sound.run? hrun
    rw [hphase] at hsound
    obtain ⟨hport, hkeeps⟩ := hsound.keeps_of_running
    rw [← hphase] at hkeeps
    exact ⟨hkeeps.run? hport ht, start_of_paused⟩
  · intro later t ht
    rw [Course.run?_cons] at ht
    obtain ⟨hphase, htable⟩ := Course.run?_of_stopped (s := ⟨s.service.stop, s.waiting⟩) rfl rfl ht
    exact ⟨hphase, htable, start_of_stopped hphase, fun a _ result => finish_of_stopped hphase a result⟩

/-- A service gets a free port and is paused. It is refused this port once, and stopped before it gets it again. -/
theorem life_cycle_overtaken :
    let config : DiscoveryConfig := { port := 0 }
    let refused : Except NetworkError UInt16 := .error .closed
    ∃ s t u, (Course.new "a" config 7000).run? [.start, .bound (.ok 4001)] = some s ∧
      s.run? [.pause, .start, .bound refused, .start] = some t ∧ t.run? [.stop, .bound (.ok 4001)] = some u ∧
      Keeps 4001 t.service.phase t.waiting ∧ t.waiting = some ⟨4001, true⟩ ∧
      u.service.phase = .stopped ∧ u.service.table = ∅ := by
  intro config refused
  have hs : (Course.new "a" config 7000).run? [.start, .bound (.ok 4001)] = some _ := rfl
  have ht : (Course.new "a" config 7000).run? [.start, .bound (.ok 4001), .pause, .start, .bound refused, .start]
      = some _ := rfl
  obtain ⟨-, hpause, -⟩ := life_cycle "a" config 7000 hs
  obtain ⟨-, -, hstop⟩ := life_cycle "a" config 7000 ht
  obtain ⟨hkeeps, -⟩ := hpause 4001 rfl [.start, .bound refused, .start] _ rfl
  obtain ⟨hphase, htable, -⟩ := hstop [.bound (.ok 4001)] _ rfl
  exact ⟨_, _, _, hs, rfl, rfl, hkeeps, rfl, hphase, htable⟩

end DocMesh.Discovery
