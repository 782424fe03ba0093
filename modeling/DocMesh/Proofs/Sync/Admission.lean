/-
# Admission to a session

The first message of a session has to be the introduction of a node that knows the secret of the mesh. A session that
starts otherwise is over with it: the peer hears at most that it is turned away, which does not depend on what the
database holds, and the database stays as it is. A session that starts well is over with the first message that is no
request.

Main statements:

* `Responder.checkTag_eq` : comparing the tags of secrets is as good as comparing the secrets;
* `Reception.receiveAll_append` : a session goes on where it has come to;
* `Reception.receiveAll_of_closed` : a session that is over stays over;
* `Reception.gated_by_introduction` : what a session does without an introduction, and with what is no request.
-/
import DocMesh.Crypto.Sha256
import DocMesh.Sync.Reception

namespace DocMesh

/-- Is this a message that a peer may send once it is introduced? -/
def Message.IsRequest : Message → Prop
  | .clockRequest | .pullRequest _ | .pushRequest _ => True
  | _ => False

/-! ## Who is admitted -/

namespace Responder

variable {r r' : Responder} {q : HandshakeRequest} {m : Message}

/-- Does the peer know the secret of the mesh, of which only the tag under a random key is kept? -/
def checkTag (key tag : Bytes) (presented : String) : Bool := Sha256.hmac key (Bytes.ofString presented) == tag

/-- Comparing tags is as good as comparing secrets, if no other text has the tag of the secret. -/
theorem checkTag_eq {key : Bytes} {token : String}
    (h : ∀ s, Sha256.hmac key (Bytes.ofString s) = Sha256.hmac key (Bytes.ofString token) → s = token)
    (presented : String) :
    checkTag key (Sha256.hmac key (Bytes.ofString token)) presented = admits token presented := by
  rw [checkTag, admits, Bool.eq_iff_iff, beq_iff_eq, beq_iff_eq]
  constructor
  · intro htag
    exact (h presented htag).symm
  · rintro rfl
    rfl

/-- The message introduces a node by its name, with the secret of the mesh. -/
def Authorizes (r : Responder) : Except NetworkError Message → Prop
  | .ok (.handshakeRequest q) => q.token = r.token ∧ q.node ≠ ""
  | _ => False

/-- Why a node is turned away. -/
def refusal (r : Responder) (q : HandshakeRequest) : String :=
  if admits r.token q.token then "missing node id" else "invalid auth token"

/-- What a peer is told whose first message does not introduce it. -/
def farewell (r : Responder) : Except NetworkError Message → Option Message
  | .ok (.handshakeRequest q) => some (.handshakeResponse (.reject r.database.node (r.refusal q)))
  | _ => none

/-- A node that is not authorized is turned away. -/
theorem greet_of_not_authorizes (h : ¬ r.Authorizes (.ok (.handshakeRequest q))) :
    r.greet q = (.reject r.database.node (r.refusal q), none) := by
  rw [greet, refusal]
  by_cases htoken : admits r.token q.token
  · have hnode : q.node = "" := by
      refine Decidable.byContradiction fun hnode => h ⟨?_, hnode⟩
      exact (beq_iff_eq.1 htoken).symm
    simp [htoken, hnode]
  · simp [htoken]

/-- An authorized node is accepted. -/
theorem greet_of_authorizes (h : r.Authorizes (.ok (.handshakeRequest q))) :
    ∃ scheme, r.greet q = (.accept r.database.node (scheme.map Compression.name), scheme) := by
  obtain ⟨htoken, hnode⟩ := h
  rw [greet]
  simp [admits, htoken, hnode]

/-- Those who are not introduced hear nothing of what the database holds. -/
theorem farewell_eq (htoken : r'.token = r.token) (hnode : r'.database.node = r.database.node)
    (arrived : Except NetworkError Message) : r'.farewell arrived = r.farewell arrived := by
  unfold farewell refusal
  rw [htoken, hnode]

/-- Responders with the same secret admit the same nodes. -/
theorem authorizes_iff (htoken : r'.token = r.token) (arrived : Except NetworkError Message) :
    r'.Authorizes arrived ↔ r.Authorizes arrived := by
  unfold Authorizes
  rw [htoken]

/-- What is no request is not answered, and changes nothing. -/
theorem answer_of_not_isRequest (h : ¬ m.IsRequest) :
    r.answer m = (.error (.unexpected "sync request" m.name), r) := by
  cases m with
  | clockRequest => exact absurd trivial h
  | pullRequest since => exact absurd trivial h
  | pushRequest entries => exact absurd trivial h
  | _ => rfl

end Responder

/-! ## How a session goes on -/

namespace Reception

variable {s : Reception} {r : Responder} {m : Message} {a : Except NetworkError Message}

theorem close_of_closed (h : s.phase = .closed) : s.close = s := by
  rw [close, ← h]

/-- A session that is over takes nothing more. -/
theorem receive_of_closed (h : s.phase = .closed) (a : Except NetworkError Message) : s.receive a = (none, s) := by
  unfold receive
  rw [h, close_of_closed h]

/-- A peer is introduced by its first message or not at all. -/
theorem phase_receive_ne_greeting (s : Reception) (a : Except NetworkError Message) :
    (s.receive a).2.phase ≠ .greeting := by
  unfold receive
  split
  · unfold greet
    dsimp only
    split <;> simp [close]
  · rename_i hphase
    unfold serve
    split <;> simp [hphase]
  · simp [close]

/-- Whoever does not introduce itself is told so at most, and the session is over. -/
theorem receive_of_not_authorizes (h : ¬ r.Authorizes a) :
    ({ responder := r } : Reception).receive a = (r.farewell a, { responder := r, phase := .closed }) := by
  rcases a with e | m
  · rfl
  · cases m with
    | handshakeRequest q =>
      show greet _ q = _
      rw [greet, Responder.greet_of_not_authorizes h]
      rfl
    | _ => rfl

/-- Once a peer has introduced itself, requests are answered. -/
theorem phase_receive_of_authorizes (h : r.Authorizes a) :
    (({ responder := r } : Reception).receive a).2.phase = .serving := by
  rcases a with e | m
  · exact absurd h not_false
  · cases m with
    | handshakeRequest q =>
      obtain ⟨scheme, hgreet⟩ := Responder.greet_of_authorizes h
      show (greet _ q).2.phase = _
      rw [greet, hgreet]
      rfl
    | _ => exact absurd h not_false

/-- After the first message, one that is no request ends the session. -/
theorem receive_of_not_isRequest (hs : s.phase ≠ .greeting) (h : ¬ m.IsRequest) :
    s.receive (.ok m) = (none, s.close) := by
  rcases hphase : s.phase with _ | _ | _
  · exact absurd hphase hs
  · unfold receive
    rw [hphase]
    dsimp only
    rw [serve, Responder.answer_of_not_isRequest h]
    rfl
  · rw [receive_of_closed hphase, close_of_closed hphase]

/-! ## Runs -/

theorem receiveAll_cons (s : Reception) (a : Except NetworkError Message)
    (as : List (Except NetworkError Message)) :
    s.receiveAll (a :: as) =
      ((s.receive a).1.toList ++ ((s.receive a).2.receiveAll as).1, ((s.receive a).2.receiveAll as).2) := rfl

/-- A session goes on where it has come to. -/
theorem receiveAll_append (s : Reception) (as bs : List (Except NetworkError Message)) :
    s.receiveAll (as ++ bs) =
      ((s.receiveAll as).1 ++ ((s.receiveAll as).2.receiveAll bs).1, ((s.receiveAll as).2.receiveAll bs).2) := by
  induction as generalizing s with
  | nil => rfl
  | cons a as ih => rw [List.cons_append, receiveAll_cons, receiveAll_cons, ih, List.append_assoc]

/-- A session that is over stays over, and nothing more is sent. -/
theorem receiveAll_of_closed (h : s.phase = .closed) (as : List (Except NetworkError Message)) :
    s.receiveAll as = ([], s) := by
  induction as with
  | nil => rfl
  | cons a as ih => rw [receiveAll_cons, receive_of_closed h, ih]; rfl

/-- No message brings a session back to its beginning. -/
theorem phase_receiveAll_ne_greeting (s : Reception) (a : Except NetworkError Message)
    (as : List (Except NetworkError Message)) : (s.receiveAll (a :: as)).2.phase ≠ .greeting := by
  induction as generalizing s a with
  | nil => exact phase_receive_ne_greeting s a
  | cons b as ih => exact ih (s.receive a).2 b

/-- A session that starts without an introduction is over with its first message. -/
theorem receiveAll_of_not_authorizes (h : ¬ r.Authorizes a) (as : List (Except NetworkError Message)) :
    ({ responder := r } : Reception).receiveAll (a :: as) =
      ((r.farewell a).toList, { responder := r, phase := .closed }) := by
  rw [receiveAll_cons, receive_of_not_authorizes h, receiveAll_of_closed rfl, List.append_nil]

/-- After the first message, one that is no request ends the session, whatever is sent behind it. -/
theorem receiveAll_of_not_isRequest (s : Reception) (a : Except NetworkError Message) (h : ¬ m.IsRequest)
    (as bs : List (Except NetworkError Message)) :
    s.receiveAll (a :: as ++ .ok m :: bs) = ((s.receiveAll (a :: as)).1, (s.receiveAll (a :: as)).2.close) := by
  have hphase := phase_receiveAll_ne_greeting s a as
  have hclosed : (s.receiveAll (a :: as)).2.close.phase = .closed := rfl
  rw [receiveAll_append, receiveAll_cons _ (.ok m), receive_of_not_isRequest hphase h, receiveAll_of_closed hclosed]
  simp

/-- **Sessions are gated by the introduction.** If the first message of a peer is not the introduction of a node with
the secret of the mesh, then whatever the peer sends after it, the session ends, the peer is sent at most one message,
the database is as before, and a node of the same name and secret with any other database would have sent the same. If
it is, the peer is served, and a later message that is no request ends the session: nothing more is sent, and the
database stays as the messages before it have left it. -/
theorem gated_by_introduction (r : Responder) (a : Except NetworkError Message)
    (as : List (Except NetworkError Message)) :
    let run := ({ responder := r } : Reception).receiveAll (a :: as)
    (¬ r.Authorizes a →
      run.1.length ≤ 1 ∧ run.2.phase = .closed ∧ run.2.responder = r ∧
        ∀ r' : Responder, r'.token = r.token → r'.database.node = r.database.node →
          (({ responder := r' } : Reception).receiveAll (a :: as)).1 = run.1) ∧
      (r.Authorizes a →
        (({ responder := r } : Reception).receive a).2.phase = .serving ∧
          ∀ m : Message, ¬ m.IsRequest → ∀ bs,
            let longer := ({ responder := r } : Reception).receiveAll (a :: as ++ .ok m :: bs)
            longer.1 = run.1 ∧ longer.2.phase = .closed ∧ longer.2.responder = run.2.responder) := by
  intro run
  constructor
  · intro ha
    have hrun : run = ((r.farewell a).toList, { responder := r, phase := .closed }) :=
      receiveAll_of_not_authorizes ha as
    rw [hrun]
    refine ⟨Option.length_toList_le, rfl, rfl, ?_⟩
    intro r' htoken hnode
    have ha' : ¬ r'.Authorizes a := by rwa [Responder.authorizes_iff htoken]
    rw [receiveAll_of_not_authorizes ha', Responder.farewell_eq htoken hnode]
  · intro ha
    refine ⟨phase_receive_of_authorizes ha, ?_⟩
    intro m hm bs longer
    have hlonger : longer = (run.1, run.2.close) := receiveAll_of_not_isRequest _ a hm as bs
    rw [hlonger]
    exact ⟨rfl, rfl, rfl⟩

/-- A peer with another secret and one with the right one, which both try to push an entry. -/
theorem gated_by_introduction_two :
    let r : Responder := { database := ⟨{}, ⟨"b", ⟨5, 0, "b"⟩⟩⟩, token := "t" }
    let e : Entry := .delete "notes" "x" ⟨7, 0, "c"⟩
    let r' : Responder :=
      { database := ⟨{ store := ({} : Store).applyEntry e }, ⟨"b", ⟨7, 0, "c"⟩⟩⟩, token := "t" }
    let wrong : Except NetworkError Message := .ok (.handshakeRequest ⟨"a", "s", ["lz4"]⟩)
    let right : Except NetworkError Message := .ok (.handshakeRequest ⟨"a", "t", ["lz4"]⟩)
    let push : Except NetworkError Message := .ok (.pushRequest [.ofEntry e])
    let run := fun (r : Responder) => ({ responder := r } : Reception).receiveAll
    (¬ r.Authorizes wrong ∧ (run r [wrong, push]).1.length ≤ 1 ∧ (run r [wrong, push]).2.phase = .closed ∧
        (run r [wrong, push]).2.responder = r ∧ (run r' [wrong, push]).1 = (run r [wrong, push]).1) ∧
      r.Authorizes right ∧ (({ responder := r } : Reception).receive right).2.phase = .serving ∧
        (run r [right, .ok .clockRequest, wrong, push]).1 = (run r [right, .ok .clockRequest]).1 ∧
        (run r [right, .ok .clockRequest, wrong, push]).2.phase = .closed ∧
        (run r [right, .ok .clockRequest, wrong, push]).2.responder
          = (run r [right, .ok .clockRequest]).2.responder := by
  intro r e r' wrong right push run
  have hwrong : ¬ r.Authorizes wrong := by simp [Responder.Authorizes, r, wrong]
  have hright : r.Authorizes right := by simp [Responder.Authorizes, r, right]
  obtain ⟨hlength, hclosed, hsame, hother⟩ := (gated_by_introduction r wrong [push]).1 hwrong
  obtain ⟨hserving, hlater⟩ := (gated_by_introduction r right [.ok .clockRequest]).2 hright
  have hrequest : ¬ (Message.handshakeRequest ⟨"a", "s", ["lz4"]⟩).IsRequest := not_false
  exact ⟨⟨hwrong, hlength, hclosed, hsame, hother r' rfl rfl⟩, hright, hserving, hlater _ hrequest [push]⟩

end Reception

end DocMesh
