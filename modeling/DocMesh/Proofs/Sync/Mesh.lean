/-
# Nodes that meet

Some nodes are opened on empty stores. From then on their programs act on their databases, any node may exchange
entries with any other over a line that may break, and a node may be closed and opened again. What holds of a
single database in every run holds of each of the nodes.

Main statements:

* `Responder.intact_answer`, `Exchange.intact_receive` : what peers ask and answer keeps a database intact;
* `Mesh.Reachable.intact` : all nodes of a mesh are intact at all times.
-/
import DocMesh.Proofs.Database.Run
import DocMesh.Proofs.Sync.Line
import Mathlib.Logic.Function.Basic

namespace DocMesh

/-! ## Requests and answers -/

/-- Whatever is requested, the database of a responder stays intact. -/
theorem Responder.intact_answer {r : Resolver} {far : Responder} (h : far.database.Intact r)
    (m : Message) : (far.answer m).2.database.Intact r := by
  unfold Responder.answer
  split
  · split <;> exact h
  · split <;> exact h
  · split
    · rename_i entries _
      dsimp only
      rw [Responder.accept]
      rcases hok : far.database.applyRemote entries with fault | ⟨db, n⟩
      · exact h
      · exact h.applyRemote hok
    · exact h
  · exact h

/-- Whatever is delivered, the database of the responder stays intact. -/
theorem Delivery.intact {r : Resolver} {far far' : Responder} {m : Message}
    {reply : Except NetworkError Message} (hd : Delivery far m reply far')
    (h : far.database.Intact r) : far'.database.Intact r := by
  cases hd with
  | answered => exact Responder.intact_answer h m
  | requestLost e => exact h
  | answerLost e => exact Responder.intact_answer h m

namespace Exchange

variable {r : Resolver} {x : Exchange}

@[simp] theorem database_pushing (x : Exchange) (pages : List (List Entry)) :
    (x.pushing pages).database = x.database := by
  cases pages <;> rfl

@[simp] theorem database_beginPull (x : Exchange) (peerLatest : Timestamp) :
    (x.beginPull peerLatest).database = x.database := by
  rw [beginPull]
  split <;> rfl

@[simp] theorem database_beginPush (x : Exchange) (peerLatest : Timestamp) :
    (x.beginPush peerLatest).database = x.database := by
  rw [beginPush]
  split
  · rw [database_pushing]
  · rfl

theorem intact_pull (h : x.database.Intact r) (peerLatest since : Timestamp) (entries : List Entry) :
    (x.pull peerLatest since entries).database.Intact r := by
  rw [pull]
  split
  · rwa [database_beginPush]
  · split
    · exact h
    · split
      · rename_i hok
        exact h.applyRemote hok
      · exact h

/-- Whatever is answered, the database of a node stays intact in an exchange. -/
theorem intact_receive (h : x.database.Intact r) (reply : Except NetworkError Message) :
    (x.receive reply).database.Intact r := by
  unfold receive
  split
  · exact h
  · unfold receiveMessage
    split
    · split
      · rwa [database_beginPull]
      · exact h
    · split
      · exact intact_pull h _ _ _
      · exact h
    · split
      · rwa [database_pushing]
      · exact h
    · exact h
    · exact h
  · exact h

end Exchange

/-- An exchange keeps the databases of both ends intact, whether it succeeds or fails. -/
theorem Line.intact_run {σ : Type} (line : Line σ) {r t : Resolver} {x : Exchange} {s : σ}
    (hx : x.database.Intact r) (hfar : (line.far s).database.Intact t) (rounds : Nat) :
    (x.runWith line.ask rounds s).1.database.Intact r ∧
      (line.far (x.runWith line.ask rounds s).2).database.Intact t := by
  apply line.run_induction (P := fun x far => x.database.Intact r ∧ far.database.Intact t)
  · intro x far m reply far' h _ hd
    exact ⟨Exchange.intact_receive h.1 reply, hd.intact h.2⟩
  · exact ⟨hx, hfar⟩

/-! ## Meshes -/

namespace Mesh

variable {ι : Type} [DecidableEq ι]

/-- The states of a mesh whose nodes resolve conflicts as `r` says. -/
inductive Reachable (r : ι → Resolver) : (ι → Database) → Prop where
  /-- All nodes are opened on empty stores. -/
  | opened {net : ι → Database} (name : ι → String) (start : ι → Int64)
    (hopen : ∀ i, Database.open (name i) { store := { resolver := r i } } (start i) = .ok (net i)) :
    Reachable r net
  /-- The program of a node acts on its database. -/
  | acted {net : ι → Database} (h : Reachable r net) (i : ι) (action : Database.Action) :
    Reachable r (Function.update net i ((net i).perform action))
  /-- A node exchanges entries with another one; the exchange succeeds, fails or is cut off. -/
  | exchanged {net : ι → Database} (h : Reachable r net) {i j : ι} (hij : i ≠ j) {σ : Type}
    (line : Line σ) (s : σ) (hfar : (line.far s).database = net j) (budget rounds : Nat)
    {x : Exchange} {s' : σ}
    (hrun : Exchange.runWith line.ask rounds { database := net i, budget := budget } s = (x, s')) :
    Reachable r (Function.update (Function.update net i x.database) j (line.far s').database)
  /-- A node is closed and opened again. -/
  | reopened {net : ι → Database} (h : Reachable r net) (i : ι) {now : Int64} {db : Database}
    (hopen : Database.open (net i).node (net i).storage now = .ok db) :
    Reachable r (Function.update net i db)

/-- All nodes of a mesh are intact at all times. -/
theorem Reachable.intact {r : ι → Resolver} {net : ι → Database} (h : Reachable r net) (i : ι) :
    (net i).Intact (r i) := by
  induction h generalizing i with
  | opened name start hopen => exact Database.intact_open .empty (hopen i)
  | @acted net h k action ih =>
    by_cases hk : i = k
    · subst hk
      rw [Function.update_self]
      exact (ih i).perform action
    · rw [Function.update_of_ne hk]
      exact ih i
  | @exchanged net h k j hij σ line s hfar budget rounds x s' hrun ih =>
    have hfarIntact : (line.far s).database.Intact (r j) := by
      rw [hfar]
      exact ih j
    have hintact := line.intact_run (x := { database := net k, budget := budget }) (ih k) hfarIntact rounds
    rw [hrun] at hintact
    by_cases hj : i = j
    · subst hj
      rw [Function.update_self]
      exact hintact.2
    rw [Function.update_of_ne hj]
    by_cases hk : i = k
    · subst hk
      rw [Function.update_self]
      exact hintact.1
    · rw [Function.update_of_ne hk]
      exact ih i
  | @reopened net h k now db hopen ih =>
    by_cases hk : i = k
    · subst hk
      rw [Function.update_self]
      have hstorage : (net i).storage = { store := (net i).storage.store } := by
        rw [← (ih i).fault]
      rw [hstorage] at hopen
      exact Database.intact_open (ih i).grown hopen
    · rw [Function.update_of_ne hk]
      exact ih i

end Mesh

end DocMesh
