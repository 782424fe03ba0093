/-
# Pulling from any peer

A peer may answer a pull with anything. A change set that can be read, that leads past the cursor and that the
database takes is applied as a whole, and the cursor moves to its end. At the first answer with which something is
wrong the exchange fails, nothing of that answer is applied, and nothing is ever pushed. Only after an empty change
set the exchange goes over to pushing, which changes nothing on this node.

Main statements:

* `receive_clock`, `receive_pull` : what one answer does;
* `run_pull` : what any answers to pulls do, one after the other;
* `pulled_consistently` : what an exchange does to its own node, whatever the peer answers.
-/
import DocMesh.Proofs.Sync.Atomicity
import DocMesh.Proofs.Sync.Effect
import DocMesh.Proofs.Sync.Mesh
import DocMesh.Proofs.Sync.Pushing

namespace DocMesh

/-! ## Answers -/

/-- The answer is a change set with the given entries. -/
def Brings (reply : Except NetworkError Message) (es : List Entry) : Prop :=
  ∃ ws, reply = .ok (.changeSet ws) ∧ ws.map WireEntry.toEntry = es.map .ok

/-- What is wrong with an answer to a pull after `since`: there is none that can be decoded, it is of another type, it
has an entry that cannot be read, it does not lead past `since`, or it does and the database does not take it. -/
inductive PullFailure (db : Database) (since : Timestamp) : Except NetworkError Message → NetworkError → Prop where
  | lost (e : NetworkError) : PullFailure db since (.error e) e
  | unexpected (m : Message) (h : ∀ ws, m ≠ .changeSet ws) :
    PullFailure db since (.ok m) (.unexpected "ChangeSetRes" m.name)
  | malformed (ws : List WireEntry) (h : ∃ w ∈ ws, ∀ e, w.toEntry ≠ .ok e) {fault : ProtocolError}
    (hfault : WireEntry.toEntries ws = .error fault) : PullFailure db since (.ok (.changeSet ws)) (.protocol fault)
  | stalled {reply : Except NetworkError Message} {es : List Entry} {last : Entry} (h : Brings reply es)
    (hlast : es.getLast? = some last) (hle : last.timestamp ≤ since) :
    PullFailure db since reply
      (.protocol (.malformedEntry ("change set does not advance past " ++ since.text)))
  | refused {reply : Except NetworkError Message} {es : List Entry} {last : Entry} (h : Brings reply es)
    (hlast : es.getLast? = some last) (hlt : since < last.timestamp) (hes : ¬ db.Takes es) {fault : StoreError}
    (hfault : db.applyRemote es = .error fault) : PullFailure db since reply (.store fault)

/-- What is wrong with an answer to the question for the latest timestamp: there is none that can be decoded, it is of
another type, or the own log cannot be read. -/
inductive ClockFailure (db : Database) : Except NetworkError Message → NetworkError → Prop where
  | lost (e : NetworkError) : ClockFailure db (.error e) e
  | unexpected (m : Message) (h : ∀ t, m ≠ .clockResponse t) : ClockFailure db (.ok m) (.unexpected "ClockRes" m.name)
  | unreadable (t : Timestamp) {fault : StoreError} (hfault : db.latest = .error fault) :
    ClockFailure db (.ok (.clockResponse t)) (.store fault)

/-- Entries are read together exactly if each of them is. -/
theorem WireEntry.toEntries_eq_ok_iff {ws : List WireEntry} {es : List Entry} :
    toEntries ws = .ok es ↔ ws.map toEntry = es.map .ok := by
  rcases toEntries_cases ws with ⟨es', hmap, hes⟩ | ⟨⟨w, hw, hunread⟩, detail, hws⟩
  · rw [hes, hmap, Except.ok.injEq]
    exact (List.map_injective_iff.2 fun _ _ h => Except.ok.inj h).eq_iff.symm
  · rw [hws]
    constructor
    · intro h
      cases h
    · intro h
      have hmem : w.toEntry ∈ es.map .ok := h ▸ List.mem_map_of_mem hw
      obtain ⟨e, -, he⟩ := List.mem_map.1 hmem
      exact absurd he.symm (hunread e)

theorem Brings.changes {m : Message} {es : List Entry} (h : Brings (.ok m) es) : Answer.changes m = .ok es := by
  obtain ⟨ws, hm, hmap⟩ := h
  cases hm
  rw [Answer.changes, WireEntry.toEntries_eq_ok_iff.2 hmap]

/-- An answer is read as the change set that it brings, or something is wrong with it. -/
theorem Answer.changes_cases (m : Message) :
    (∃ es, Brings (.ok m) es ∧ Answer.changes m = .ok es) ∨
      ∃ e, (∀ db since, PullFailure db since (.ok m) e) ∧ Answer.changes m = .error e := by
  cases m with
  | changeSet ws =>
    rw [Answer.changes]
    rcases WireEntry.toEntries_cases ws with ⟨es, hmap, hes⟩ | ⟨hunread, detail, hws⟩
    · rw [hes]
      exact Or.inl ⟨es, ⟨ws, rfl, hmap⟩, rfl⟩
    · rw [hws]
      exact Or.inr ⟨_, fun _ _ => .malformed ws hunread hws, rfl⟩
  | _ => exact Or.inr ⟨_, fun _ _ => .unexpected _ (fun _ h => by cases h), rfl⟩

/-! ## Change sets, one after the other -/

/-- Applies change sets one after the other, each as a whole. -/
def Database.applySets (db : Database) : List (List Entry) → Except StoreError Database
  | [] => .ok db
  | es :: sets =>
    match db.applyRemote es with
    | .ok (db', _) => db'.applySets sets
    | .error e => .error e

/-- The ends of change sets that are received one after the other, the timestamp at which they begin included. -/
def cursors (since : Timestamp) (sets : List (List Entry)) : List Timestamp := sets.scanl Entry.endAfter since

/-- The answers bring the change sets. None is empty, each leads past the end of the one before, and applying them one
after the other makes `db'` out of `db`. -/
structure Pulled (db : Database) (since : Timestamp) (answers : List (Except NetworkError Message))
    (sets : List (List Entry)) (db' : Database) : Prop where
  brings : List.Forall₂ Brings answers sets
  ne_nil : ∀ es ∈ sets, es ≠ []
  ascending : (cursors since sets).Pairwise (· < ·)
  applied : db.applySets sets = .ok db'

namespace Pulled

variable {db db' db'' : Database} {since t : Timestamp} {answers : List (Except NetworkError Message)}
  {reply : Except NetworkError Message} {sets : List (List Entry)} {es : List Entry} {last : Entry} {n : Summary}

theorem le_of_mem_cursors (h : (cursors since sets).Pairwise (· < ·)) (ht : t ∈ cursors since sets) : since ≤ t := by
  cases sets with
  | nil =>
    rw [List.mem_singleton.1 ht]
    exact Std.le_refl since
  | cons es sets =>
    rw [cursors, List.scanl_cons] at h ht
    rcases List.mem_cons.1 ht with rfl | ht
    · exact Std.le_refl t
    · exact Std.le_of_lt ((List.pairwise_cons.1 h).1 t ht)

theorem nil (db : Database) (since : Timestamp) : Pulled db since [] [] db :=
  ⟨.nil, List.forall_mem_nil _, List.pairwise_singleton _ _, rfl⟩

/-- One more change set is received first. -/
theorem cons (hbrings : Brings reply es) (hlast : es.getLast? = some last) (hlt : since < last.timestamp)
    (hok : db.applyRemote es = .ok (db', n)) (h : Pulled db' last.timestamp answers sets db'') :
    Pulled db since (reply :: answers) (es :: sets) db'' := by
  refine ⟨.cons hbrings h.brings, List.forall_mem_cons.2 ⟨?_, h.ne_nil⟩, ?_, ?_⟩
  · rintro rfl
    cases hlast
  · rw [cursors, List.scanl_cons, Entry.endAfter_of_getLast? since hlast]
    refine List.pairwise_cons.2 ⟨fun t ht => ?_, h.ascending⟩
    exact Std.lt_of_lt_of_le hlt (le_of_mem_cursors h.ascending ht)
  · rw [Database.applySets, hok]
    exact h.applied

end Pulled

namespace Exchange

variable {x : Exchange} {t since : Timestamp} {reply : Except NetworkError Message}
  {replies : List (Except NetworkError Message)} {m : Message} {e : NetworkError}

/-! ## Requests -/

/-- The requests of an exchange to which the given answers come, the one that waits at the end included. -/
def requests (x : Exchange) : List (Except NetworkError Message) → List Message
  | [] => x.request?.toList
  | reply :: replies => x.request?.toList ++ (x.receive reply).requests replies

theorem requests_of_request? (h : x.request? = some m) (reply : Except NetworkError Message)
    (replies : List (Except NetworkError Message)) :
    x.requests (reply :: replies) = m :: (x.receive reply).requests replies := by
  rw [requests, h]
  rfl

/-- An exchange that has ended stays as it is. -/
theorem run_of_request?_eq_none (h : x.request? = none) (replies : List (Except NetworkError Message)) :
    x.run replies = x ∧ x.requests replies = [] := by
  have hreceive : ∀ reply, x.receive reply = x := by
    intro reply
    unfold receive
    rw [h]
  induction replies with
  | nil => exact ⟨rfl, by rw [requests, h]; rfl⟩
  | cons reply replies ih =>
    obtain ⟨hrun, hrequests⟩ := ih
    constructor
    · rw [run, List.foldl_cons, hreceive]
      exact hrun
    · rw [requests, h, hreceive, hrequests]
      rfl

/-- The own node stays as it was, and only pages are pushed. -/
def OnlyPushes (x : Exchange) (db : Database) (replies : List (Except NetworkError Message)) : Prop :=
  (x.run replies).database = db ∧
    ∃ pushed : List (List WireEntry), x.requests replies = pushed.map .pushRequest

theorem onlyPushes_of_request? (h : x.request? = none) (replies : List (Except NetworkError Message)) :
    x.OnlyPushes x.database replies := by
  obtain ⟨hrun, hrequests⟩ := run_of_request?_eq_none h replies
  rw [OnlyPushes, hrun, hrequests]
  exact ⟨rfl, [], rfl⟩

theorem onlyPushes_pushing (x : Exchange) (pages : List (List Entry)) (replies : List (Except NetworkError Message)) :
    (x.pushing pages).OnlyPushes x.database replies := by
  induction replies generalizing pages with
  | nil =>
    refine ⟨database_pushing x pages, ?_⟩
    cases pages with
    | nil => exact ⟨[], rfl⟩
    | cons page pages => exact ⟨[page.map .ofEntry], rfl⟩
  | cons reply replies ih =>
    cases pages with
    | nil => exact onlyPushes_of_request? (x := x.pushing []) rfl (reply :: replies)
    | cons page pages =>
      have hfail : ∀ e, (x.fail e).OnlyPushes x.database replies :=
        fun e => onlyPushes_of_request? (x := x.fail e) rfl replies
      have hnext : ((x.pushing (page :: pages)).receive reply).OnlyPushes x.database replies := by
        rw [receive_pushing]
        rcases reply with e | m
        · exact hfail e
        · dsimp only
          rcases Answer.taken m with e | ⟨⟩
          · exact hfail e
          · exact ih pages
      obtain ⟨hdatabase, pushed, hpushed⟩ := hnext
      refine ⟨hdatabase, page.map .ofEntry :: pushed, ?_⟩
      rw [requests_of_request? (m := .pushRequest (page.map .ofEntry)) rfl, hpushed, List.map_cons]

theorem onlyPushes_beginPush (x : Exchange) (t : Timestamp) (replies : List (Except NetworkError Message)) :
    (x.beginPush t).OnlyPushes x.database replies := by
  rw [beginPush]
  rcases x.database.entriesAfter t with fault | entries
  · exact onlyPushes_of_request? (x := x.fail (.store fault)) rfl replies
  · exact onlyPushes_pushing _ _ replies

/-! ## One answer -/

/-- What the answer to the question for the latest timestamp does. -/
theorem receive_clock (h : x.phase = .clock) (reply : Except NetworkError Message) :
    (∃ e, ClockFailure x.database reply e ∧ x.receive reply = x.fail e) ∨
      ∃ peerLatest since, reply = .ok (.clockResponse peerLatest) ∧ x.database.latest = .ok since ∧
        x.receive reply = { x with phase := .pull peerLatest since } := by
  have hrequest : x.request? = some .clockRequest := by rw [request?, h]
  rcases reply with e | m
  · exact Or.inl ⟨e, .lost e, receive_error hrequest e⟩
  have hreceive : x.receive (.ok m) = x.receiveMessage m := by
    unfold receive
    rw [hrequest]
  unfold receiveMessage at hreceive
  rw [h] at hreceive
  cases m with
  | clockResponse peerLatest =>
    have hbegin : x.receive (.ok (.clockResponse peerLatest)) = x.beginPull peerLatest := hreceive
    rw [hbegin, beginPull]
    rcases hlatest : x.database.latest with fault | since
    · exact Or.inl ⟨_, .unreadable peerLatest hlatest, rfl⟩
    · exact Or.inr ⟨peerLatest, since, rfl, rfl, rfl⟩
  | _ => exact Or.inl ⟨_, .unexpected _ (fun _ h => by cases h), hreceive⟩

/-- An answer to a pull is read as a change set. -/
theorem receive_changes (h : x.phase = .pull t since) (m : Message) :
    x.receive (.ok m) =
      match Answer.changes m with
      | .ok es => x.pull t since es
      | .error e => x.fail e := by
  have hrequest : x.request? = some (.pullRequest since) := by rw [request?, h]
  have hreceive : x.receive (.ok m) = x.receiveMessage m := by
    unfold receive
    rw [hrequest]
  unfold receiveMessage at hreceive
  rw [h] at hreceive
  exact hreceive

/-- An answer with which something is wrong makes the exchange fail. -/
theorem receive_of_pullFailure (h : x.phase = .pull t since) (hfailure : PullFailure x.database since reply e) :
    x.receive reply = x.fail e := by
  have hbrings : ∀ es, Brings reply es → x.receive reply = x.pull t since es := by
    intro es hes
    obtain ⟨ws, rfl, -⟩ := id hes
    rw [receive_changes h, hes.changes]
  cases hfailure with
  | lost e => exact receive_error (by rw [request?, h]) e
  | unexpected m hm =>
    rw [receive_changes h]
    cases m with
    | changeSet ws => exact absurd rfl (hm ws)
    | _ => rfl
  | malformed ws hunread hfault => rw [receive_changes h, Answer.changes, hfault]
  | stalled hes hlast hle =>
    rw [hbrings _ hes, pull, hlast]
    exact if_pos hle
  | refused hes hlast hlt _ hfault =>
    rw [hbrings _ hes, pull, hlast]
    dsimp only
    rw [if_neg (Std.not_le.2 hlt), hfault]

/-- Nothing is applied or asked for after an answer with which something is wrong. -/
theorem run_of_pullFailure (h : x.phase = .pull t since) (hfailure : PullFailure x.database since reply e)
    (replies : List (Except NetworkError Message)) :
    x.run (reply :: replies) = x.fail e ∧ x.requests (reply :: replies) = [.pullRequest since] := by
  have hrequest : x.request? = some (.pullRequest since) := by rw [request?, h]
  have hreceive := receive_of_pullFailure h hfailure
  obtain ⟨hrun, hrequests⟩ := run_of_request?_eq_none (x := x.fail e) rfl replies
  constructor
  · rw [run, List.foldl_cons, hreceive]
    exact hrun
  · rw [requests_of_request? hrequest, hreceive, hrequests]

/-- **What an answer to a pull does.** Either something is wrong with it, and the exchange fails; or it is the empty
change set, and the push begins; or its change set is applied as a whole, and its end is the next cursor. -/
theorem receive_pull (h : x.phase = .pull t since) (reply : Except NetworkError Message) :
    (∃ e, PullFailure x.database since reply e ∧ x.receive reply = x.fail e) ∨
      (Brings reply [] ∧ x.receive reply = x.beginPush t) ∨
      ∃ es last db' n, Brings reply es ∧ es.getLast? = some last ∧ since < last.timestamp ∧
        x.database.applyRemote es = .ok (db', n) ∧ (x.receive reply).database = db' ∧
        (x.receive reply).phase = .pull t last.timestamp := by
  rcases reply with e | m
  · exact Or.inl ⟨e, .lost e, receive_of_pullFailure h (.lost e)⟩
  rw [receive_changes h]
  rcases Answer.changes_cases m with ⟨es, hbrings, hes⟩ | ⟨e, hfailure, he⟩
  · rw [hes]
    dsimp only
    rw [pull]
    rcases hlast : es.getLast? with _ | last
    · rw [List.getLast?_eq_none_iff.1 hlast] at hbrings
      exact Or.inr (Or.inl ⟨hbrings, rfl⟩)
    · dsimp only
      by_cases hle : last.timestamp ≤ since
      · rw [if_pos hle]
        exact Or.inl ⟨_, .stalled hbrings hlast hle, rfl⟩
      · rw [if_neg hle]
        rcases hok : x.database.applyRemote es with fault | ⟨db', n⟩
        · have hes : ¬ x.database.Takes es := by
            intro htakes
            obtain ⟨n, htaken⟩ := Database.applyRemote_of_takes htakes
            rw [hok] at htaken
            cases htaken
          exact Or.inl ⟨_, .refused hbrings hlast (Std.not_le.1 hle) hes hok, rfl⟩
        · exact Or.inr (Or.inr ⟨es, last, db', n, hbrings, hlast, Std.not_le.1 hle, hok, rfl, rfl⟩)
  · rw [he]
    exact Or.inl ⟨e, hfailure _ _, rfl⟩

/-! ## Any answers -/

/-- How it goes on when change sets were applied that end at `cursor`. If something is wrong with the next answer, that
is the result, and nothing was pushed. Otherwise it is the empty change set, and only then pages are pushed. -/
structure PullEnd (db : Database) (cursor : Timestamp) (rest : List (Except NetworkError Message))
    (result : Option (Except NetworkError Transfer)) (pushed : List (List WireEntry)) : Prop where
  waiting : rest = [] → result = none ∧ pushed = []
  failed : ∀ reply ∈ rest.head?, ∀ e, PullFailure db cursor reply e → result = some (.error e) ∧ pushed = []
  complete : ∀ reply ∈ rest.head?, (∀ e, ¬ PullFailure db cursor reply e) → Brings reply []

theorem PullEnd.cons {db : Database} {cursor : Timestamp} {result : Option (Except NetworkError Transfer)}
    {pushed : List (List WireEntry)}
    (hfailed : ∀ e, PullFailure db cursor reply e → result = some (.error e) ∧ pushed = [])
    (hcomplete : (∀ e, ¬ PullFailure db cursor reply e) → Brings reply []) :
    PullEnd db cursor (reply :: replies) result pushed where
  waiting hnil := absurd hnil (List.cons_ne_nil reply replies)
  failed _ hreply := by
    cases hreply
    exact hfailed
  complete _ hreply := by
    cases hreply
    exact hcomplete

/-- What an exchange does that waits for the answer to a pull. -/
theorem run_pull (h : x.phase = .pull t since) (replies : List (Except NetworkError Message)) :
    ∃ answers rest sets pushed, replies = answers ++ rest ∧
      Pulled x.database since answers sets (x.run replies).database ∧
      PullEnd (x.run replies).database (sets.foldl Entry.endAfter since) rest (x.run replies).result? pushed ∧
      x.requests replies = (cursors since sets).map .pullRequest ++ pushed.map .pushRequest := by
  have hrequest : x.request? = some (.pullRequest since) := by rw [request?, h]
  induction replies generalizing x since with
  | nil =>
    have hresult : x.result? = none := by rw [result?, h]
    refine ⟨[], [], [], [], rfl, .nil _ _, ⟨fun _ => ⟨hresult, rfl⟩, ?_, ?_⟩, ?_⟩
    · intro reply hreply
      cases hreply
    · intro reply hreply
      cases hreply
    · rw [requests, hrequest]
      rfl
  | cons reply replies ih =>
    by_cases hwrong : ∃ e, PullFailure x.database since reply e
    · obtain ⟨e, he⟩ := hwrong
      obtain ⟨hrun, hrequests⟩ := run_of_pullFailure h he replies
      refine ⟨[], reply :: replies, [], [], rfl, ?_, .cons (fun e' he' => ?_) fun hnone => ?_, hrequests⟩
      · rw [hrun]
        exact .nil _ _
      · rw [hrun] at he'
        rw [(run_of_pullFailure h he' replies).1]
        exact ⟨rfl, rfl⟩
      · rw [hrun] at hnone
        exact absurd he (hnone e)
    rw [requests_of_request? hrequest, show x.run (reply :: replies) = (x.receive reply).run replies from rfl]
    rcases receive_pull h reply with ⟨e, he, -⟩ | ⟨hempty, hreceive⟩ |
      ⟨es, last, db', n, hbrings, hlast, hlt, hok, hdatabase, hphase⟩
    · exact absurd ⟨e, he⟩ hwrong
    · obtain ⟨hdatabase, pushed, hpushed⟩ := onlyPushes_beginPush x t replies
      rw [hreceive, hdatabase, hpushed]
      refine ⟨[], reply :: replies, [], pushed, rfl, .nil _ _, .cons (fun e he => ?_) fun _ => hempty, rfl⟩
      exact absurd ⟨e, he⟩ hwrong
    · obtain ⟨answers, rest, sets, pushed, rfl, hpulled, hend, hrequests⟩ :=
        ih hphase (by rw [request?, hphase])
      rw [hdatabase] at hpulled
      have hcursor := Entry.endAfter_of_getLast? since hlast
      refine ⟨reply :: answers, rest, es :: sets, pushed, rfl, hpulled.cons hbrings hlast hlt hok, ?_, ?_⟩
      · rw [List.foldl_cons, hcursor]
        exact hend
      · rw [hrequests, cursors, cursors, List.scanl_cons, hcursor]
        rfl

/-- **What an exchange does to its own node, whatever the peer answers.** It first asks for the peer's latest timestamp;
if something is wrong with the answer, it fails, and the node is as it was. Otherwise it asks for change sets from its
own latest timestamp on. Those that come first are applied one after the other, each as a whole, and they are all that
changes the node, its clock included; each leads past the one before, and the next request asks from its end on. At
the first answer with which something is wrong the exchange fails with it, and nothing has been pushed. Pages are
pushed only after the empty change set, and nothing that is answered to them changes the node. -/
theorem pulled_consistently (db : Database) (budget : Nat) (replies : List (Except NetworkError Message)) :
    let start : Exchange := { database := db, budget := budget }
    let x := start.run replies
    let sent := start.requests replies
    (replies = [] ∧ x = start ∧ sent = [.clockRequest]) ∨
      (∃ first rest e, replies = first :: rest ∧ ClockFailure db first e ∧ x.database = db ∧
        x.result? = some (.error e) ∧ sent = [.clockRequest]) ∨
      ∃ peerLatest since answers rest sets pushed, replies = .ok (.clockResponse peerLatest) :: (answers ++ rest) ∧
        db.latest = .ok since ∧ Pulled db since answers sets x.database ∧
        PullEnd x.database (sets.foldl Entry.endAfter since) rest x.result? pushed ∧
        sent = .clockRequest :: ((cursors since sets).map .pullRequest ++ pushed.map .pushRequest) := by
  intro start x sent
  rcases replies with _ | ⟨first, rest⟩
  · exact Or.inl ⟨rfl, rfl, rfl⟩
  refine Or.inr ?_
  have hrun : x = (start.receive first).run rest := rfl
  have hsent : sent = .clockRequest :: (start.receive first).requests rest := requests_of_request? rfl first rest
  rw [hrun, hsent]
  rcases receive_clock (x := start) rfl first with ⟨e, hfailure, hreceive⟩ | ⟨peerLatest, since, rfl, hlatest, hreceive⟩
  · obtain ⟨hended, hnone⟩ := run_of_request?_eq_none (x := start.fail e) rfl rest
    rw [hreceive, hended, hnone]
    exact Or.inl ⟨first, rest, e, rfl, hfailure, rfl, rfl, rfl⟩
  · rw [hreceive]
    obtain ⟨answers, rest, sets, pushed, rfl, hpulled, hend, hrequests⟩ :=
      run_pull (x := { start with phase := .pull peerLatest since }) rfl rest
    rw [hrequests]
    exact Or.inr ⟨peerLatest, since, answers, rest, sets, pushed, rfl, hlatest, hpulled, hend, rfl⟩

end Exchange

end DocMesh
