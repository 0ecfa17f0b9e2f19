import BFTDiagnosis.Analyzer.Loops

/-!
# The sets of crashed nodes

The controller reports the nodes that it crashes one after the other, and the set of a round is to be the set
of the round before with one more node. The set that is extended is the one that the walk over the map visits
last, which need not be that of the round before.
-/

namespace BFTDiagnosis.Analyzer

open Components

/-- A reported node, and the order in which the map of crash sets is visited then. -/
structure CrashCall where
  peerId : PeerId
  order : List (UInt16 × List PeerId)

namespace DataWarehouse

/-- The calls `record_crash_node(1, ..)`, `record_crash_node(2, ..)` and so on. -/
def recordCrashNodes (w : DataWarehouse) (calls : List CrashCall) : Option DataWarehouse :=
  calls.zipIdx.foldlM
    (fun w entry ↦ w.recordCrashNode (UInt16.ofNat (entry.2 + 1)) entry.1.peerId entry.1.order) w

/-- The first rounds have the growing crash sets. -/
def CrashSets (w : DataWarehouse) (peers : List PeerId) : Prop :=
  ∀ round, 1 ≤ round → round ≤ peers.length →
    w.crashNodes.lookup (UInt16.ofNat round) = some (peers.take round)

end DataWarehouse

/-- Every walk after the first call ends at the set of the round before. -/
def NewestLast (calls : List CrashCall) : Prop :=
  ∀ round call, 1 ≤ round → calls[round]? = some call →
    call.order.getLast?.map Prod.fst = some (UInt16.ofNat round)

open DataWarehouse

theorem recordCrashNodes_concat (w : DataWarehouse) (calls : List CrashCall) (call : CrashCall) :
    w.recordCrashNodes (calls ++ [call]) = (w.recordCrashNodes calls).bind fun w ↦
      w.recordCrashNode (UInt16.ofNat (calls.length + 1)) call.peerId call.order := by
  rw [recordCrashNodes, List.zipIdx_append, List.foldlM_append]
  simp [recordCrashNodes]

/-- The last set of the walk is extended, and there is none before the first call. -/
theorem crashNodes_of_recordCrashNode {w w' : DataWarehouse} {count : UInt16} {peerId : PeerId}
    {order : List (UInt16 × List PeerId)} (h : w.recordCrashNode count peerId order = some w') :
    w.crashNodes.Listing order ∧
      w'.crashNodes = w.crashNodes.insert count ((order.getLast?.map Prod.snd).getD [] ++ [peerId]) := by
  obtain ⟨hlisting, hrest⟩ := guard_bind_eq_some.1 h
  refine ⟨hlisting, ?_⟩
  split at hrest
  case isTrue =>
    obtain ⟨last, hlast, hsome⟩ := Option.bind_eq_some_iff.1 hrest
    rw [hlast, ← Option.some.inj hsome]
    rfl
  case isFalse hlen =>
    obtain rfl : order = [] := by
      rw [← List.length_eq_zero_iff, hlisting.length_eq]
      exact not_not.1 hlen
    rw [← Option.some.inj hrest]
    rfl

theorem newestLast_concat {calls : List CrashCall} {call : CrashCall} :
    NewestLast (calls ++ [call]) ↔ NewestLast calls ∧
      (1 ≤ calls.length → call.order.getLast?.map Prod.fst = some (UInt16.ofNat calls.length)) := by
  constructor
  · intro h
    refine ⟨fun round other hround hother ↦ h round other hround ?_, fun hlength ↦ h calls.length call hlength ?_⟩
    · have hlt := (List.getElem?_eq_some_iff.1 hother).1
      rwa [List.getElem?_append_left hlt]
    · rw [List.getElem?_concat_length]
  · rintro ⟨hcalls, hcall⟩ round other hround hother
    rcases Nat.lt_or_ge round calls.length with hlt | hge
    · rw [List.getElem?_append_left hlt] at hother
      exact hcalls round other hround hother
    · have hlt := (List.getElem?_eq_some_iff.1 hother).1
      rw [List.length_append, List.length_singleton] at hlt
      obtain rfl : round = calls.length := by omega
      rw [List.getElem?_concat_length] at hother
      rw [← Option.some.inj hother]
      exact hcall hround

/-- The sets of the rounds so far are kept, and the new one is right exactly if the right one was extended. -/
theorem crashSets_concat {w w' : DataWarehouse} {peers base : List PeerId} {peerId : PeerId}
    (hfits : peers.length + 1 < 2 ^ 16)
    (hafter : w'.crashNodes = w.crashNodes.insert (UInt16.ofNat (peers.length + 1)) (base ++ [peerId])) :
    w'.CrashSets (peers ++ [peerId]) ↔ w.CrashSets peers ∧ base = peers := by
  have hlength : (peers ++ [peerId]).length = peers.length + 1 := by
    rw [List.length_append, List.length_singleton]
  have hold {round : ℕ} (hround : round ≤ peers.length) :
      w'.crashNodes.lookup (UInt16.ofNat round) = w.crashNodes.lookup (UInt16.ofNat round) ∧
        (peers ++ [peerId]).take round = peers.take round := by
    refine ⟨?_, List.take_append_of_le_length hround⟩
    rw [hafter, Finmap.lookup_insert_of_ne]
    intro hsame
    have hnat := congrArg UInt16.toNat hsame
    rw [UInt16.toNat_ofNat_of_lt' (show round < 2 ^ 16 by omega), UInt16.toNat_ofNat_of_lt' hfits] at hnat
    omega
  constructor
  · intro h
    refine ⟨fun round hone hround ↦ ?_, ?_⟩
    · have hset := h round hone (hlength ▸ Nat.le_succ_of_le hround)
      rwa [(hold hround).1, (hold hround).2] at hset
    · have hset := h (peers.length + 1) (Nat.le_add_left _ _) hlength.ge
      rw [hafter, Finmap.lookup_insert, ← hlength, List.take_length] at hset
      exact List.append_cancel_right (Option.some.inj hset)
  · rintro ⟨h, rfl⟩ round hone hround
    rcases Nat.lt_or_ge base.length round with hlt | hle
    · obtain rfl : round = base.length + 1 := by omega
      rw [hafter, Finmap.lookup_insert, ← hlength, List.take_length]
    · rw [(hold hle).1, (hold hle).2]
      exact h round hone hle

/-- The rounds of a map with the right sets are told apart by their sets, so the last set of a walk is the newest
one exactly if the walk ends at its round. -/
theorem last_eq_iff {w : DataWarehouse} {peers : List PeerId} {order : List (UInt16 × List PeerId)}
    (hkeys : ∀ count ∈ w.crashNodes, 1 ≤ count.toNat ∧ count.toNat ≤ peers.length) (h : w.CrashSets peers)
    (hfits : peers.length < 2 ^ 16) (horder : w.crashNodes.Listing order) :
    (order.getLast?.map Prod.snd).getD [] = peers ↔
      (1 ≤ peers.length → order.getLast?.map Prod.fst = some (UInt16.ofNat peers.length)) := by
  cases hlast : order.getLast? with
  | none =>
    -- the map is empty, so that there is no round yet
    have hempty : peers.length = 0 := by
      by_contra hne
      have hset := h 1 le_rfl (Nat.one_le_iff_ne_zero.2 hne)
      rw [← HashMap.mem_listing horder, List.getLast?_eq_none_iff.1 hlast] at hset
      cases hset
    rw [List.length_eq_zero_iff.1 hempty]
    simp
  | some entry =>
    obtain ⟨count, set⟩ := entry
    have hset := (HashMap.mem_listing horder).1 (List.mem_of_getLast? hlast)
    obtain ⟨hone, hcount⟩ := hkeys count (Finmap.mem_iff.2 ⟨set, hset⟩)
    have hround := h count.toNat hone hcount
    rw [UInt16.ofNat_toNat, hset] at hround
    obtain rfl := Option.some.inj hround
    have hpos : 1 ≤ peers.length := hone.trans hcount
    simp only [Option.map_some, Option.getD_some, List.take_eq_self_iff, Option.some.injEq, hpos, forall_const]
    rw [← UInt16.toNat_inj, UInt16.toNat_ofNat_of_lt' hfits]
    omega

/-- Induction over the calls: the rounds recorded are those of the calls, and their sets are the growing ones
exactly if every walk ended at the newest. -/
theorem recordCrashNodes_spec {calls : List CrashCall} (hfits : calls.length < 2 ^ 16) {w : DataWarehouse}
    (h : recordCrashNodes .new calls = some w) :
    (∀ count ∈ w.crashNodes, 1 ≤ count.toNat ∧ count.toNat ≤ calls.length) ∧
      (w.CrashSets (calls.map CrashCall.peerId) ↔ NewestLast calls) := by
  induction calls using List.reverseRecOn generalizing w with
  | nil =>
    obtain rfl : DataWarehouse.new = w := Option.some.inj h
    refine ⟨fun count hcount ↦ absurd hcount Finmap.notMem_empty, ?_⟩
    refine iff_of_true (fun round hone hround ↦ absurd (hone.trans hround) (by decide)) fun round call _ hcall ↦ ?_
    cases hcall
  | append_singleton calls call ih =>
    rw [List.length_append, List.length_singleton] at hfits
    rw [recordCrashNodes_concat, Option.bind_eq_some_iff] at h
    obtain ⟨before, hbefore, hcall⟩ := h
    obtain ⟨hkeys, hsets⟩ := ih (Nat.lt_of_succ_lt hfits) hbefore
    obtain ⟨horder, hafter⟩ := crashNodes_of_recordCrashNode hcall
    have hlength : (calls.map CrashCall.peerId).length = calls.length := List.length_map _
    refine ⟨fun count hcount ↦ ?_, ?_⟩
    · rw [hafter, Finmap.mem_insert] at hcount
      rw [List.length_append, List.length_singleton]
      rcases hcount with rfl | hcount
      · rw [UInt16.toNat_ofNat_of_lt' hfits]
        exact ⟨Nat.le_add_left _ _, le_rfl⟩
      · exact ⟨(hkeys count hcount).1, Nat.le_succ_of_le (hkeys count hcount).2⟩
    · rw [← hlength] at hafter hkeys hfits
      rw [List.map_append, List.map_singleton, crashSets_concat hfits hafter, newestLast_concat, ← hsets, ← hlength]
      refine and_congr_right fun hright ↦ ?_
      exact last_eq_iff hkeys hright (Nat.lt_of_succ_lt hfits) horder

/-- The crash sets of all rounds are the growing ones exactly if the walk of every call after the first ends at the
set of the round before. Rounds are numbered by `u16`. -/
theorem crashSets_iff_newestLast {calls : List CrashCall} (hfits : calls.length < 2 ^ 16) {w : DataWarehouse}
    (h : recordCrashNodes .new calls = some w) :
    w.CrashSets (calls.map CrashCall.peerId) ↔ NewestLast calls :=
  (recordCrashNodes_spec hfits h).2

/-! Three nodes that crash; the third walk visits the sets in one order or the other. -/

def growingCalls : List CrashCall :=
  [⟨[1], []⟩, ⟨[2], [(1, [[1]])]⟩, ⟨[3], [(1, [[1]]), (2, [[1], [2]])]⟩]

def shrinkingCalls : List CrashCall :=
  [⟨[1], []⟩, ⟨[2], [(1, [[1]])]⟩, ⟨[3], [(2, [[1], [2]]), (1, [[1]])]⟩]

theorem crashSets_iff_newestLast_growingCalls :
    ∃ w, recordCrashNodes .new growingCalls = some w ∧ (w.CrashSets [[1], [2], [3]] ↔ NewestLast growingCalls) := by
  have hsome : (recordCrashNodes .new growingCalls).isSome = true := by decide +kernel
  obtain ⟨w, hw⟩ := Option.isSome_iff_exists.1 hsome
  exact ⟨w, hw, crashSets_iff_newestLast (by decide) hw⟩

theorem not_crashSets_shrinkingCalls :
    ¬ ∀ (calls : List CrashCall) (w : DataWarehouse), calls.length < 2 ^ 16 → (calls.map CrashCall.peerId).Nodup →
      recordCrashNodes .new calls = some w → w.CrashSets (calls.map CrashCall.peerId) := by
  intro h
  have hsome : (recordCrashNodes .new shrinkingCalls).isSome = true := by decide +kernel
  obtain ⟨w, hw⟩ := Option.isSome_iff_exists.1 hsome
  have hthird : (recordCrashNodes .new shrinkingCalls).bind (fun w ↦ w.crashNodes.lookup 3) = some [[1], [3]] := by
    decide +kernel
  have hset := h shrinkingCalls w (by decide) (by decide) hw 3 (by decide) (by decide)
  rw [hw, Option.bind_some] at hthird
  have hsame := Option.some.inj (hthird.symm.trans hset)
  exact absurd hsame (by decide)

end BFTDiagnosis.Analyzer
