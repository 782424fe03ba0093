/-
# Lines to a responder

A line carries requests to a responder and its answers back, unaltered. It may break: then the request is lost, or
the responder has acted on it and the answer is lost.

Main statements:

* `Responder.answer_pull` : what a responder answers to a pull;
* `Line.direct`, `Line.fading` : the line that never breaks, and one that does;
* `Line.run_induction` : what a delivery keeps is kept by a whole exchange.
-/
import DocMesh.Sync.Exchange
import DocMesh.Sync.Responder

namespace DocMesh

/-! ## Answers -/

/-- The answer to a pull is the first page of what there is after the timestamp, as long as the storage can be read. -/
theorem Responder.answer_pull (r : Responder) (since : Timestamp) :
    r.answer (.pullRequest since)
      = (match r.database.storage.fault with
          | none => .ok (.changeSet
              ((Entry.page (max r.budget 1) (r.database.storage.store.entriesAfter since)).map .ofEntry))
          | some reason => .error (.store (.storage reason)), r) := by
  rw [answer, changeSet, Database.entriesAfter, Storage.read]
  rcases r.database.storage.fault with _ | reason <;> rfl

/-! ## Deliveries -/

/-- What may come of a request to a responder, and the responder afterwards. -/
inductive Delivery (r : Responder) (m : Message) : Except NetworkError Message → Responder → Prop where
  /-- The answer has arrived. -/
  | answered : Delivery r m (r.answer m).1 (r.answer m).2
  /-- The request has not arrived. -/
  | requestLost (e : NetworkError) : Delivery r m (.error e) r
  /-- The request has arrived, but not the answer. -/
  | answerLost (e : NetworkError) : Delivery r m (.error e) (r.answer m).2

/-- A connection in state `σ` to a responder. -/
structure Line (σ : Type) where
  ask : Ask σ
  /-- The responder at the other end. -/
  far : σ → Responder
  /-- Requests and answers arrive unaltered or not at all. -/
  delivery : ∀ m s, Delivery (far s) m (ask m s).1 (far (ask m s).2)

namespace Line

variable {σ : Type}

/-- The line to a responder that never breaks. -/
def direct : Line Responder where
  ask m r := r.answer m
  far r := r
  delivery _ _ := .answered

@[simp] theorem far_direct (r : Responder) : direct.far r = r := rfl

/-- The line over which so many answers arrive. From then on requests arrive, but no answers. -/
def fading : Line (Nat × Responder) where
  ask m s :=
    match s with
    | (0, r) => (.error .closed, (0, (r.answer m).2))
    | (n + 1, r) => ((r.answer m).1, (n, (r.answer m).2))
  far s := s.2
  delivery m s := by
    obtain ⟨_ | n, r⟩ := s
    · exact .answerLost .closed
    · exact .answered

/-! ## Runs -/

/-- What holds at the beginning of an exchange over a line and is kept by every delivery holds at its end. -/
theorem run_induction (line : Line σ) {P : Exchange → Responder → Prop}
    (hstep : ∀ x r m reply r', P x r → x.request? = some m → Delivery r m reply r' →
      P (x.receive reply) r') (rounds : Nat) (x : Exchange) (s : σ) (h : P x (line.far s)) :
    P (x.runWith line.ask rounds s).1 (line.far (x.runWith line.ask rounds s).2) := by
  induction rounds generalizing x s with
  | zero => exact h
  | succ rounds ih =>
    rw [Exchange.runWith]
    rcases hm : x.request? with _ | m
    · exact h
    · exact ih _ _ (hstep x (line.far s) m _ _ h hm (line.delivery m s))

end Line

end DocMesh
