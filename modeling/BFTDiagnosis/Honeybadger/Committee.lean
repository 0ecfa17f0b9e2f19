import BFTDiagnosis.Lib.Quorum
import BFTDiagnosis.Lib.World
import BFTDiagnosis.Honeybadger.CommonSubset

/-!
# Nodes that agree on a subset

Nodes that each run the subset, over a network that loses, delays, repeats and reorders messages. A message is
taken to come from the node that the network names as its source: a node that is not faulty has sent it, and a
faulty one may send anything. The keys that replace the subset of a node are those that the nodes start with.
-/

namespace BFTDiagnosis.Honeybadger

/-- The nodes, at most as many of them faulty as each node allows for. -/
structure Committee (ι : Type) where
  externals : ι → ProposalExternals
  netinfo : ι → Network
  nonce : ℕ
  faulty : Finset ι
  faultNum : ℕ
  faultNum_eq : ∀ i, (netinfo i).faultNum = faultNum
  faulty_le : faulty.card ≤ faultNum

abbrev SubsetHistory (ι : Type) := History ι Subset Subset.Event (List Payload)
abbrev SubsetWorld (ι : Type) := World ι Subset Subset.Event (List Payload)

/-- The node has sent the message. -/
def Sent {ι : Type} (history : SubsetHistory ι) (j : ι) (msg : SubsetMessage) : Prop :=
  ∃ entry ∈ history, entry.1 = j ∧ Payload.subset msg ∈ entry.2.out

namespace Committee

variable {ι : Type} (c : Committee ι)

def step (i : ι) : Subset → Subset.Event → Option (Subset × List Payload) := Subset.step (c.externals i)

def start [DecidableEq ι] : SubsetWorld ι :=
  World.start fun i ↦ Subset.new (c.externals i).toExternals (c.netinfo i) c.nonce

/-- The source of a message is a node that has sent it, or a faulty one. -/
def From (history : SubsetHistory ι) (source : String) (msg : SubsetMessage) : Prop :=
  ∃ j, (c.netinfo j).id = source ∧ (j ∈ c.faulty ∨ Sent history j msg)

def Attributed (w : SubsetWorld ι) (delivery : ι × Subset.Event) : Prop :=
  match delivery.2 with
  | .gossip source msg => c.From w.history source msg
  | .request _ _ => True

variable [DecidableEq ι]

instance From.decidable [Fintype ι] (history : SubsetHistory ι) (source : String) (msg : SubsetMessage) :
    Decidable (c.From history source msg) :=
  inferInstanceAs (Decidable (∃ j, (c.netinfo j).id = source ∧ (j ∈ c.faulty ∨
    ∃ entry ∈ history, entry.1 = j ∧ Payload.subset msg ∈ entry.2.out)))

instance Attributed.decidable [Fintype ι] (w : SubsetWorld ι) (delivery : ι × Subset.Event) :
    Decidable (c.Attributed w delivery) :=
  match delivery with
  | (_, .gossip source msg) => inferInstanceAs (Decidable (c.From w.history source msg))
  | (_, .request _ _) => inferInstanceAs (Decidable True)

def Reachable (w : SubsetWorld ι) : Prop := World.Reachable c.step c.Attributed c.start w

variable {c} {history : SubsetHistory ι} {w w' : SubsetWorld ι} {i j : ι} {source : String} {msg : SubsetMessage}

omit [DecidableEq ι] in
theorem sent_append (h : Sent history j msg) (later : SubsetHistory ι) : Sent (history ++ later) j msg := by
  obtain ⟨entry, hentry, hj, hout⟩ := h
  exact ⟨entry, List.mem_append_left _ hentry, hj, hout⟩

omit [DecidableEq ι] in
theorem From.append (h : c.From history source msg) (later : SubsetHistory ι) :
    c.From (history ++ later) source msg := by
  obtain ⟨j, hname, hsent⟩ := h
  exact ⟨j, hname, hsent.imp_right fun hsent ↦ sent_append hsent later⟩

/-- The transitions of a node are a run of the subset. -/
theorem isRun (h : c.Reachable w) (i : ι) :
    IsRun (Subset.step (c.externals i)) (Subset.new (c.externals i).toExternals (c.netinfo i) c.nonce)
      (History.perNode some w.history i) (w.nodes i) :=
  World.Reachable.isRun h rfl i

/-- Every message that was handled comes from the node that is named as its source. -/
theorem Reachable.attributed (h : c.Reachable w) {t : Transition Subset Subset.Event (List Payload)}
    (ht : (i, t) ∈ w.history) (hevent : t.event = .gossip source msg) : c.From w.history source msg := by
  obtain ⟨before, after, hsplit⟩ := List.append_of_mem ht
  obtain ⟨w₀, -, hbefore, -, hmet, -⟩ := World.Reachable.before h rfl hsplit
  rw [Attributed] at hmet
  simp only [hevent, hbefore] at hmet
  rw [hsplit]
  exact hmet.append _

/-- What is handled in a step was sent before it. -/
theorem Reachable.attributed_before (h : c.Reachable w) {delivery : ι × Subset.Event}
    (met : c.Attributed w delivery) (taken : w.deliver c.step delivery = some w')
    {t : Transition Subset Subset.Event (List Payload)} (ht : (i, t) ∈ w'.history)
    (hevent : t.event = .gossip source msg) : c.From w.history source msg := by
  obtain ⟨s, out, -, -, hhistory⟩ := World.deliver_cases taken
  rw [hhistory, List.mem_append, List.mem_singleton] at ht
  rcases ht with hold | hnew
  · exact h.attributed hold hevent
  · obtain ⟨rfl, rfl⟩ := Prod.mk.inj hnew
    have hdelivery : delivery.2 = .gossip source msg := hevent
    rw [Attributed, hdelivery] at met
    exact met

omit [DecidableEq ι] in
/-- Messages of more sources than can be faulty have one from a node that is not. -/
theorem exists_correct_sent [Fintype ι] {P : SubsetMessage → Prop} {sources : Finset String}
    (hfrom : ∀ source ∈ sources, ∃ msg, P msg ∧ c.From history source msg)
    (hcard : c.faultNum + 1 ≤ sources.card) : ∃ j msg, j ∉ c.faulty ∧ P msg ∧ Sent history j msg := by
  obtain ⟨members, hmembers, hsent⟩ := Quorum.exists_members (fun j ↦ (c.netinfo j).id) sources
    (P := fun j ↦ j ∈ c.faulty ∨ ∃ msg, P msg ∧ Sent history j msg) (by
      intro source hsource
      obtain ⟨msg, hmsg, j, hname, hsent⟩ := hfrom source hsource
      exact ⟨j, hname, hsent.imp_right fun hsent ↦ ⟨msg, hmsg, hsent⟩⟩)
  obtain ⟨j, hj, hcorrect⟩ := Quorum.exists_correct c.faulty_le (hcard.trans hmembers)
  obtain ⟨msg, hmsg, hsent⟩ := (hsent j hj).resolve_left hcorrect
  exact ⟨j, msg, hcorrect, hmsg, hsent⟩

end Committee

end BFTDiagnosis.Honeybadger
