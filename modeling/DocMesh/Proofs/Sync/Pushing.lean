/-
# Pushing page by page

A push sends the pages of a list one after the other. It goes on as long as the peer acknowledges them, and whatever
else comes back ends it. So what was sent is a part of the list, from its first entry on: all of it if the push
succeeds, and otherwise up to the page at which something went wrong.

Main statements:

* `Segments.pages` : the pages of a list are pieces of it that keep entries with the same timestamp together;
* `Ask.course_pushPages` : how a push of pages runs, answer by answer;
* `Ask.pushed_once_in_order` : what a push sends, and how it ends;
* `Exchange.runWith_pushing` : an exchange that has come to its push runs as a push does.
-/
import DocMesh.Proofs.Message.Budget
import DocMesh.Sync.Exchange

namespace DocMesh

/-! ## Pieces of a list -/

/-- The lists are pieces of `es` that follow each other from its first entry on. None is empty, and none ends between
two entries with the same timestamp. -/
structure Segments (es : List Entry) (pieces : List (List Entry)) : Prop where
  ne_nil : ∀ piece ∈ pieces, piece ≠ []
  flatten : pieces.flatten <+: es
  /-- After any number of pieces the next entry has another timestamp than the last one. -/
  ends : ∀ front, front <+: pieces → ∀ a ∈ front.flatten.getLast?, ∀ b ∈ (es.drop front.flatten.length).head?,
    a.timestamp ≠ b.timestamp

namespace Segments

variable {es : List Entry} {pieces front : List (List Entry)}

theorem mono (h : Segments es pieces) (hfront : front <+: pieces) : Segments es front where
  ne_nil piece hpiece := h.ne_nil piece (hfront.subset hpiece)
  flatten := by
    obtain ⟨rest, rfl⟩ := hfront
    have hall := h.flatten
    rw [List.flatten_append] at hall
    exact (List.prefix_append _ _).trans hall
  ends front' hfront' := h.ends front' (hfront'.trans hfront)

theorem length_le (h : Segments es pieces) : pieces.length ≤ es.length := by
  have hone : ∀ n ∈ pieces.map List.length, 1 ≤ n := by
    intro n hn
    obtain ⟨piece, hpiece, rfl⟩ := List.mem_map.1 hn
    exact List.length_pos_iff.2 (h.ne_nil piece hpiece)
  calc pieces.length = (pieces.map List.length).length := (List.length_map _).symm
    _ ≤ (pieces.map List.length).sum := List.length_le_sum_of_one_le _ hone
    _ = pieces.flatten.length := List.length_flatten.symm
    _ ≤ es.length := h.flatten.length_le

/-- **The pages of a list are pieces of it.** -/
theorem pages (budget : Nat) (es : List Entry) : Segments es (Entry.pages budget es) := by
  fun_induction Entry.pages budget es with
  | case1 => exact ⟨List.forall_mem_nil _, List.nil_prefix, fun front hfront => by simp [List.prefix_nil.1 hfront]⟩
  | case2 es hne _ ih =>
    refine ⟨List.forall_mem_cons.2 ⟨Entry.page_ne_nil budget hne, ih.ne_nil⟩, ?_, fun front hfront a ha b hb => ?_⟩
    · have hsplit := Entry.page_append_drop budget es
      rw [List.flatten_cons]
      conv => rhs; rw [← hsplit]
      exact (List.prefix_append_right_inj _).2 ih.flatten
    · rcases List.prefix_cons_iff.1 hfront with rfl | ⟨front, rfl, hrest⟩
      · cases ha
      · rw [List.flatten_cons] at ha hb
        rw [List.length_append, ← List.drop_drop] at hb
        rw [List.getLast?_append] at ha
        rcases hlast : front.flatten.getLast? with _ | c
        · -- nothing follows the first page
          rw [hlast] at ha
          rw [List.getLast?_eq_none_iff.1 hlast] at hb
          exact Entry.ne_of_mem_head_drop_page ha hb
        · rw [hlast] at ha
          exact ih.ends front hrest a (hlast.trans ha) b hb

end Segments

/-! ## Answers to a push -/

/-- The peer has taken what was pushed. -/
def Acknowledged (reply : Except NetworkError Message) : Prop :=
  ∃ reason, reply = .ok (.acknowledgement true reason)

/-- What is wrong with an answer to a push: there is none, the peer has not taken the entries, or it says something
else. -/
inductive PushFailure : Except NetworkError Message → NetworkError → Prop where
  | lost (e : NetworkError) : PushFailure (.error e) e
  | rejected (reason : Option String) :
    PushFailure (.ok (.acknowledgement false reason)) (.pushRejected (reason.getD "no reason given"))
  | unexpected (m : Message) (h : ∀ success reason, m ≠ .acknowledgement success reason) :
    PushFailure (.ok m) (.unexpected "AckRes" m.name)

theorem PushFailure.not_acknowledged {reply : Except NetworkError Message} {e : NetworkError}
    (h : PushFailure reply e) : ¬ Acknowledged reply := by
  rintro ⟨reason, hreply⟩
  cases h with
  | lost e => cases hreply
  | rejected reason => cases hreply
  | unexpected m hm =>
    cases hreply
    exact hm true reason rfl

theorem PushFailure.unique {reply : Except NetworkError Message} {e e' : NetworkError} (h : PushFailure reply e)
    (h' : PushFailure reply e') : e = e' := by
  cases h with
  | lost e => cases h'; rfl
  | rejected reason =>
    cases h' with
    | rejected => rfl
    | unexpected m hm => exact absurd rfl (hm false reason)
  | unexpected m hm =>
    cases h' with
    | rejected reason => exact absurd rfl (hm false reason)
    | unexpected => rfl

/-- An answer is an acknowledgement, or something is wrong with it. -/
theorem Answer.taken_cases (m : Message) :
    (Acknowledged (.ok m) ∧ Answer.taken m = .ok ()) ∨ ∃ e, PushFailure (.ok m) e ∧ Answer.taken m = .error e := by
  cases m with
  | acknowledgement success reason =>
    cases success with
    | true => exact Or.inl ⟨⟨reason, rfl⟩, rfl⟩
    | false => exact Or.inr ⟨_, .rejected reason, rfl⟩
  | _ => exact Or.inr ⟨_, .unexpected _ (fun _ _ h => by cases h), rfl⟩

/-! ## Conversations on record -/

/-- Requests, each with its answer or the reason why there is none. -/
abbrev Conversation := List (Message × Except NetworkError Message)

namespace Ask

variable {σ : Type}

/-- Asks in the same way and takes down every request with its answer. -/
def recorded (ask : Ask σ) : Ask (σ × Conversation) := fun m s =>
  match ask m s.1 with
  | (reply, s') => (reply, s', s.2 ++ [(m, reply)])

/-- A push of pages, answer by answer. -/
theorem pushPages_cons (ask : Ask σ) (page : List Entry) (pages : List (List Entry)) (s : σ) :
    pushPages ask (page :: pages) s =
      match ask (.pushRequest (page.map .ofEntry)) s with
      | (.error e, s') => (.error e, s')
      | (.ok m, s') =>
        match Answer.taken m with
        | .error e => (.error e, s')
        | .ok () => pushPages ask pages s' := by
  have hbind : pushPages ask (page :: pages) s =
      (match ask (.pushRequest (page.map .ofEntry)) s with
        | (reply, s') =>
          ExceptT.bindCont (fun m => liftM (Answer.taken m) >>= fun _ => pushPages ask pages) reply s') := rfl
  rw [hbind]
  rcases ask (.pushRequest (page.map .ofEntry)) s with ⟨e | m, s'⟩
  · rfl
  · rcases h : Answer.taken m with e | ⟨⟩
    · dsimp only [ExceptT.bindCont]
      rw [h]
      rfl
    · dsimp only [ExceptT.bindCont]
      rw [h]
      rfl

/-- How a push of the given pages may run: the answers decide how far it comes. -/
inductive Course : List (List Entry) → Except NetworkError Unit → Conversation → Prop where
  | done : Course [] (.ok ()) []
  | taken {page : List Entry} {pages : List (List Entry)} {reply : Except NetworkError Message}
    {result : Except NetworkError Unit} {record : Conversation} (h : Acknowledged reply)
    (rest : Course pages result record) :
    Course (page :: pages) result ((.pushRequest (page.map .ofEntry), reply) :: record)
  | failed {page : List Entry} {pages : List (List Entry)} {reply : Except NetworkError Message} {e : NetworkError}
    (h : PushFailure reply e) : Course (page :: pages) (.error e) [(.pushRequest (page.map .ofEntry), reply)]

/-- A push runs as its answers decide, and taking it down changes nothing. -/
theorem course_pushPages (ask : Ask σ) (pages : List (List Entry)) (s : σ) (record : Conversation) :
    ∃ result s' more, pushPages ask pages s = (result, s') ∧
      pushPages ask.recorded pages (s, record) = (result, s', record ++ more) ∧ Course pages result more := by
  induction pages generalizing s record with
  | nil => exact ⟨.ok (), s, [], rfl, by rw [List.append_nil]; rfl, .done⟩
  | cons page pages ih =>
    rw [pushPages_cons, pushPages_cons, recorded]
    rcases ask (.pushRequest (page.map .ofEntry)) s with ⟨e | m, s'⟩
    · exact ⟨.error e, s', _, rfl, rfl, .failed (.lost e)⟩
    · dsimp only
      rcases Answer.taken_cases m with ⟨hacknowledged, htaken⟩ | ⟨e, hfailure, htaken⟩
      · obtain ⟨result, s'', more, hrun, hrecord, hcourse⟩ :=
          ih s' (record ++ [(.pushRequest (page.map .ofEntry), .ok m)])
        rw [htaken]
        refine ⟨result, s'', _, hrun, ?_, .taken hacknowledged hcourse⟩
        rw [hrecord, List.append_assoc]
        rfl
      · rw [htaken]
        exact ⟨.error e, s', _, rfl, rfl, .failed hfailure⟩

namespace Course

variable {pages : List (List Entry)} {result : Except NetworkError Unit} {record : Conversation}

/-- The requests carry the first pages, in order, and all of them if the push succeeds. -/
theorem exists_sent (h : Course pages result record) :
    ∃ sent, sent <+: pages ∧ record.map Prod.fst = sent.map (fun page => .pushRequest (page.map .ofEntry)) ∧
      (result = .ok () → sent = pages) := by
  induction h with
  | done => exact ⟨[], List.nil_prefix, rfl, fun _ => rfl⟩
  | @taken page pages reply result record _ _ ih =>
    obtain ⟨sent, hsent, hrecord, hall⟩ := ih
    refine ⟨page :: sent, (List.prefix_cons_inj page).2 hsent, ?_, fun hok => by rw [hall hok]⟩
    rw [List.map_cons, hrecord, List.map_cons]
  | @failed page pages => exact ⟨[page], ⟨pages, rfl⟩, rfl, fun hok => by cases hok⟩

/-- A push succeeds exactly if every page is acknowledged. -/
theorem eq_ok_iff (h : Course pages result record) : result = .ok () ↔ ∀ x ∈ record, Acknowledged x.2 := by
  induction h with
  | done => exact ⟨fun _ => List.forall_mem_nil _, fun _ => rfl⟩
  | taken hacknowledged _ ih => rw [ih, List.forall_mem_cons, and_iff_right hacknowledged]
  | failed hfailure =>
    rw [List.forall_mem_singleton]
    constructor
    · intro hok
      cases hok
    · exact fun hacknowledged => absurd hacknowledged hfailure.not_acknowledged

/-- A push fails at the first answer with which something is wrong, and that answer is its last one. -/
theorem eq_error_iff (h : Course pages result record) (e : NetworkError) :
    result = .error e ↔ ∃ before x, record = before ++ [x] ∧ (∀ y ∈ before, Acknowledged y.2) ∧ PushFailure x.2 e := by
  induction h with
  | done => simp
  | @taken page pages reply result record hacknowledged _ ih =>
    rw [ih]
    constructor
    · rintro ⟨before, x, rfl, hbefore, hx⟩
      exact ⟨_ :: before, x, rfl, List.forall_mem_cons.2 ⟨hacknowledged, hbefore⟩, hx⟩
    · rintro ⟨before, x, heq, hbefore, hx⟩
      cases before with
      | nil =>
        cases heq
        exact absurd hacknowledged hx.not_acknowledged
      | cons y before =>
        cases heq
        exact ⟨before, x, rfl, (List.forall_mem_cons.1 hbefore).2, hx⟩
  | @failed page pages reply e' hfailure =>
    constructor
    · intro heq
      cases heq
      exact ⟨[], _, rfl, List.forall_mem_nil _, hfailure⟩
    · rintro ⟨before, x, heq, -, hx⟩
      obtain ⟨-, hlast⟩ := List.append_inj' (show [] ++ [_] = before ++ [x] from heq) rfl
      cases hlast
      rw [hfailure.unique hx]

end Course

/-- **What a push sends, and how it ends.** However requests are answered, taking them down changes nothing. They carry
pieces of the list that follow each other from its first entry on, none is empty or ends between two entries with the
same timestamp, and there are no more of them than entries. The push succeeds exactly if every one is acknowledged, and
then the pieces are the whole list. It fails with what is wrong with the last answer, and all answers before it are
acknowledgements. -/
theorem pushed_once_in_order (ask : Ask σ) (s : σ) (budget : Nat) (es : List Entry) :
    let run := push ask.recorded budget es (s, [])
    let record := run.2.2
    push ask budget es s = (run.1, run.2.1) ∧
      (∃ sent, sent <+: Entry.pages budget es ∧
        record.map Prod.fst = sent.map (fun page => .pushRequest (page.map .ofEntry)) ∧ Segments es sent ∧
        (run.1 = .ok () → sent.flatten = es)) ∧
      record.length ≤ es.length ∧ (run.1 = .ok () ↔ ∀ x ∈ record, Acknowledged x.2) ∧
      ∀ e, run.1 = .error e ↔
        ∃ before x, record = before ++ [x] ∧ (∀ y ∈ before, Acknowledged y.2) ∧ PushFailure x.2 e := by
  intro run record
  obtain ⟨result, s', more, hrun, hrecord, hcourse⟩ := course_pushPages ask (Entry.pages budget es) s []
  have hresult : run = (result, s', more) := hrecord
  subst record
  rw [hresult]
  obtain ⟨sent, hsent, hrequests, hall⟩ := hcourse.exists_sent
  have hsegments := (Segments.pages budget es).mono hsent
  refine ⟨hrun, ⟨sent, hsent, hrequests, hsegments, fun hok => ?_⟩, ?_, hcourse.eq_ok_iff, hcourse.eq_error_iff⟩
  · rw [hall hok, Entry.flatten_pages]
  · have hlength := congrArg List.length hrequests
    rw [List.length_map, List.length_map] at hlength
    exact hlength ▸ hsegments.length_le

end Ask

/-! ## Pushes in exchanges -/

namespace Exchange

variable {σ : Type}

/-- An exchange that has ended asks nothing more. -/
theorem runWith_of_request?_eq_none {x : Exchange} (h : x.request? = none) (ask : Ask σ) (rounds : Nat) (s : σ) :
    x.runWith ask rounds s = (x, s) := by
  cases rounds with
  | zero => rfl
  | succ rounds => rw [runWith, h]

/-- The answer to a page decides whether the next one is sent. -/
theorem receive_pushing (x : Exchange) (page : List Entry) (pages : List (List Entry))
    (reply : Except NetworkError Message) :
    (x.pushing (page :: pages)).receive reply =
      match reply with
      | .error e => x.fail e
      | .ok m =>
        match Answer.taken m with
        | .error e => x.fail e
        | .ok () => x.pushing pages := by
  rcases reply with e | m
  · rfl
  · dsimp only [pushing, receive, request?, receiveMessage]
    rcases Answer.taken m with e | ⟨⟩
    · rfl
    · -- what is left to be pushed does not depend on the page that was sent
      cases pages <;> rfl

/-- **The push of an exchange.** Given enough rounds it runs as a push of the same pages does, and nothing but the phase
of the exchange is changed by it. -/
theorem runWith_pushing (ask : Ask σ) (x : Exchange) (pages : List (List Entry)) (s : σ) {rounds : Nat}
    (hrounds : pages.length ≤ rounds) :
    (x.pushing pages).runWith ask rounds s =
      match Ask.pushPages ask pages s with
      | (.ok (), s') => ({ x with phase := .finished }, s')
      | (.error e, s') => (x.fail e, s') := by
  induction pages generalizing s rounds with
  | nil => exact runWith_of_request?_eq_none rfl ask rounds s
  | cons page pages ih =>
    obtain ⟨rounds, rfl⟩ := Nat.exists_eq_add_of_le' (Nat.le_trans (Nat.le_add_left 1 pages.length) hrounds)
    have hfail : ∀ e s', runWith ask rounds (x.fail e) s' = (x.fail e, s') :=
      fun e s' => runWith_of_request?_eq_none rfl ask rounds s'
    have hrequest : (x.pushing (page :: pages)).request? = some (.pushRequest (page.map .ofEntry)) := rfl
    rw [Ask.pushPages_cons, runWith, hrequest]
    dsimp only
    rcases ask (.pushRequest (page.map .ofEntry)) s with ⟨e | m, s'⟩
    · exact hfail e s'
    · dsimp only
      rw [receive_pushing]
      dsimp only
      rcases Answer.taken m with e | ⟨⟩
      · exact hfail e s'
      · exact ih s' (Nat.le_of_succ_le_succ hrounds)

end Exchange

end DocMesh
