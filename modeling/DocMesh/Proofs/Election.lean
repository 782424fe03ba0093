/-
# Who leads

Each node decides for itself whether it leads, by the peers that it sees. Peers in the cloud do not count, and nothing
is said between the nodes, so that there can be several leaders: a node leads exactly if it sees no lesser id. The node
with the least id always does, and it is the only leader if every other node sees a lesser one.

Main statements:

* `leads_iff` : when a node leads;
* `mem_leaders_iff`, `least_mem_leaders` : who leads of some nodes;
* `leaders_eq_least_iff` : when the least node is the only leader;
* `least_node_leads` : the leaders of some nodes that see each other in part, and of nodes that all see each other.
-/
import DocMesh.Election
import Mathlib.Data.Finset.Max
import Mathlib.Data.String.Basic

namespace DocMesh.Election

variable {nodes : Finset String} {before : String → Bool} {view : String → List Peer} {node : String}

theorem eligible_iff {p : Peer} : eligible p = true ↔ p.kind = .lan ∨ p.kind = .static := by
  rw [eligible]
  cases p.kind <;> decide

/-- **When a node leads**: if no peer that may lead has a lesser id. -/
theorem leads_iff {peers : List Peer} : leads node peers = true ↔ ∀ p ∈ peers, eligible p = true → node ≤ p.id := by
  rw [leads, List.all_eq_true]
  simp only [List.mem_filter, decide_eq_true_iff, and_imp]

/-- The nodes that lead when each has looked again. They see the peers in `view`, and `before` says which of them led. -/
def leaders (nodes : Finset String) (before : String → Bool) (view : String → List Peer) : Finset String :=
  nodes.filter fun x => (evaluate ⟨x, before x⟩ (view x)).leading = true

theorem mem_leaders_iff :
    node ∈ leaders nodes before view ↔ node ∈ nodes ∧ ∀ p ∈ view node, eligible p = true → node ≤ p.id := by
  rw [leaders, Finset.mem_filter, evaluate, leads_iff]

/-- A node that sees a lesser one does not lead. -/
theorem not_mem_leaders {p : Peer} (hp : p ∈ view node) (heligible : eligible p = true) (hlt : p.id < node) :
    node ∉ leaders nodes before view := by
  intro hmem
  exact absurd ((mem_leaders_iff.1 hmem).2 p hp heligible) (not_le_of_gt hlt)

section Least

variable (hne : nodes.Nonempty) (hview : ∀ x ∈ nodes, ∀ p ∈ view x, eligible p = true → p.id ∈ nodes)
include hview

/-- The node with the least id leads. -/
theorem least_mem_leaders : nodes.min' hne ∈ leaders nodes before view := by
  have hmem := nodes.min'_mem hne
  refine mem_leaders_iff.2 ⟨hmem, ?_⟩
  intro p hp heligible
  exact nodes.min'_le p.id (hview _ hmem p hp heligible)

/-- **When the least node is the only leader**: if every other node sees a lesser one. -/
theorem leaders_eq_least_iff :
    leaders nodes before view = {nodes.min' hne} ↔
      ∀ y ∈ nodes, y ≠ nodes.min' hne → ∃ p ∈ view y, eligible p = true ∧ p.id < y := by
  constructor
  · intro heq y hy hleast
    by_contra hnone
    have hleads : y ∈ leaders nodes before view := by
      refine mem_leaders_iff.2 ⟨hy, ?_⟩
      intro p hp heligible
      exact le_of_not_gt fun hlt => hnone ⟨p, hp, heligible, hlt⟩
    rw [heq] at hleads
    exact hleast (Finset.mem_singleton.1 hleads)
  · intro hsees
    refine Finset.eq_singleton_iff_unique_mem.2 ⟨least_mem_leaders hne hview, ?_⟩
    intro y hy
    by_contra hleast
    obtain ⟨p, hp, heligible, hlt⟩ := hsees y (mem_leaders_iff.1 hy).1 hleast
    exact not_mem_leaders hp heligible hlt hy

end Least

/-- **The leaders of some nodes.** Nodes with different ids see some of each other, in whatever way, and any peers in
the cloud. Then the one with the least id leads, a node that sees a lesser one as a peer that may lead does not, and if
all nodes see each other so the one with the least id is the only leader. -/
theorem least_node_leads (hne : nodes.Nonempty) (before : String → Bool)
    (hview : ∀ x ∈ nodes, ∀ p ∈ view x, p.id ∈ nodes ∨ p.kind = .cloud) :
    nodes.min' hne ∈ leaders nodes before view ∧
      (∀ y ∈ nodes, ∀ p ∈ view y, p.kind = .lan ∨ p.kind = .static → p.id < y → y ∉ leaders nodes before view) ∧
      ((∀ y ∈ nodes, ∀ x ∈ nodes, x ≠ y → ∃ p ∈ view y, p.id = x ∧ (p.kind = .lan ∨ p.kind = .static)) →
        leaders nodes before view = {nodes.min' hne}) := by
  have hwithin : ∀ x ∈ nodes, ∀ p ∈ view x, eligible p = true → p.id ∈ nodes := by
    intro x hx p hp heligible
    rcases hview x hx p hp with hmem | hcloud
    · exact hmem
    · rw [eligible, hcloud] at heligible
      cases heligible
  refine ⟨least_mem_leaders hne hwithin, ?_, ?_⟩
  · intro y _ p hp hkind hlt
    exact not_mem_leaders hp (eligible_iff.2 hkind) hlt
  · intro hall
    rw [leaders_eq_least_iff hne hwithin]
    intro y hy hleast
    obtain ⟨p, hp, hid, hkind⟩ := hall y hy (nodes.min' hne) (nodes.min'_mem hne) (Ne.symm hleast)
    refine ⟨p, hp, eligible_iff.2 hkind, ?_⟩
    rw [hid]
    exact lt_of_le_of_ne (nodes.min'_le y hy) (Ne.symm hleast)

/-- Three nodes that see each other, and a peer in the cloud with a lesser id. -/
theorem least_node_leads_three :
    let nodes : Finset String := {"node-9", "node-10", "node-8"}
    let before : String → Bool := fun x => x = "node-9"
    let view : String → List Peer := fun x =>
      ⟨"cloud", "relay:443", 0, .cloud⟩ :: (["node-8", "node-9", "node-10"].filter (· ≠ x)).map (⟨·, "", 0, .lan⟩)
    nodes.Nonempty ∧ (∀ x ∈ nodes, ∀ p ∈ view x, p.id ∈ nodes ∨ p.kind = .cloud) ∧
      (∀ y ∈ nodes, ∀ x ∈ nodes, x ≠ y → ∃ p ∈ view y, p.id = x ∧ (p.kind = .lan ∨ p.kind = .static)) ∧
      leaders nodes before view = {"node-10"} := by
  intro nodes before view
  have hne : nodes.Nonempty := ⟨"node-8", by decide⟩
  have hview : ∀ x ∈ nodes, ∀ p ∈ view x, p.id ∈ nodes ∨ p.kind = .cloud := by decide +kernel
  have hall : ∀ y ∈ nodes, ∀ x ∈ nodes, x ≠ y → ∃ p ∈ view y, p.id = x ∧ (p.kind = .lan ∨ p.kind = .static) := by
    decide +kernel
  have hleast : nodes.min' hne = "node-10" := (Finset.min'_eq_iff nodes hne _).2 ⟨by decide, by decide +kernel⟩
  obtain ⟨-, -, hleaders⟩ := least_node_leads hne before hview
  exact ⟨hne, hview, hall, hleast ▸ hleaders hall⟩

end DocMesh.Election
