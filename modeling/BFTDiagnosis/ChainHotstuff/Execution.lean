import BFTDiagnosis.ChainHotstuff.Certification
import BFTDiagnosis.ChainHotstuff.Network

/-!
# The order in which chained HotStuff executes commands

Honest replicas should execute the commands of one chain in the order of the chain. A replica executes
the great-grandparent of every block that it accepts and nothing below it, so the order holds only if
no block is missed: from the fourth block of the chain on, a replica has to accept exactly one block of
each height. Between two replicas it holds if both stay on the branches they have locked.
-/

namespace BFTDiagnosis.ChainHotstuff

open Components Utils Word Hotstuff ChainHotstuffProtocol

variable {X : Externals} {ι : Type}

/-! ## Ancestors -/

namespace Block

/-- The block so many generations below a block. -/
def ancestor : ℕ → Block → Option Block
  | 0, block => some block
  | n + 1, block => block.parent.bind (ancestor n)

/-- How many blocks the chain up to a block has. -/
def height (block : Block) : ℕ := block.lineage.length

theorem lineage_of_parent {block parent : Block} (h : block.parent = some parent) :
    block.lineage = parent.lineage ++ [block] := by
  rw [lineage_eq, h, Option.map_some, Option.getD_some]

theorem height_of_parent {block parent : Block} (h : block.parent = some parent) :
    block.height = parent.height + 1 := by
  rw [height, lineage_of_parent h, List.length_append, List.length_singleton, height]

theorem mem_lineage (block : Block) : block ∈ block.lineage := by
  rw [lineage_eq]
  exact List.mem_append_right _ (List.mem_singleton.2 rfl)

theorem lineage_of_height_one {block : Block} (h : block.height = 1) : block.lineage = [block] := by
  obtain ⟨first, hfirst⟩ := List.length_eq_one_iff.1 h
  have hmem := mem_lineage block
  rw [hfirst] at hmem ⊢
  rw [List.mem_singleton.1 hmem]

theorem lineage_getLast (block : Block) : block.lineage.getLast? = some block := by
  rw [lineage_eq, List.getLast?_concat]

/-- Up to each of its blocks, a chain is the chain of that block. -/
theorem lineage_of_split {lower : Block} {before : List Block} :
    ∀ {block : Block} {after : List Block}, block.lineage = before ++ lower :: after →
      lower.lineage = before ++ [lower]
  | ⟨cmd, parentHash, none⟩, after, h => by
    have hsingle : [⟨cmd, parentHash, none⟩] = before ++ lower :: after := by rw [← h, lineage]
    obtain ⟨rfl, rfl, rfl⟩ : before = [] ∧ lower = ⟨cmd, parentHash, none⟩ ∧ after = [] := by
      cases before with
      | nil => simpa [eq_comm] using hsingle
      | cons first rest => simp at hsingle
    exact h
  | ⟨cmd, parentHash, some ⟨viewNum, parent, signature⟩⟩, after, h => by
    rcases List.eq_nil_or_concat after with rfl | ⟨rest, last, rfl⟩
    · have hself : lower = ⟨cmd, parentHash, some ⟨viewNum, parent, signature⟩⟩ := by
        have hlast := congrArg List.getLast? h
        rw [lineage_getLast, List.getLast?_concat] at hlast
        exact (Option.some.inj hlast).symm
      rw [← h, hself]
    · have hparent : parent.lineage ++ [⟨cmd, parentHash, some ⟨viewNum, parent, signature⟩⟩] =
          (before ++ lower :: rest) ++ [last] := by
        rw [← lineage, h]
        simp
      exact lineage_of_split (List.append_inj' hparent rfl).1

/-- The chain of a block begins with the chain of each of its blocks. -/
theorem lineage_prefix_of_mem {block lower : Block} (h : lower ∈ block.lineage) :
    lower.lineage <+: block.lineage := by
  obtain ⟨before, after, hsplit⟩ := List.mem_iff_append.1 h
  rw [lineage_of_split hsplit, hsplit]
  exact ⟨after, by simp⟩

/-- Blocks of one height on one chain are equal. -/
theorem eq_of_height_eq {left right : Block} {chain : List Block} (hleft : left.lineage <+: chain)
    (hright : right.lineage <+: chain) (hheight : left.height = right.height) : left = right := by
  have hlineage : left.lineage = right.lineage := by
    rw [List.prefix_iff_eq_take.1 hleft, List.prefix_iff_eq_take.1 hright]
    exact congrArg (chain.take ·) hheight
  apply Option.some.inj
  rw [← lineage_getLast left, ← lineage_getLast right, hlineage]

theorem ancestor_spec {n : ℕ} {block lower : Block} (h : block.ancestor n = some lower) :
    lower ∈ block.lineage ∧ lower.height + n = block.height := by
  induction n generalizing block with
  | zero =>
    obtain rfl := Option.some.inj h
    exact ⟨mem_lineage block, rfl⟩
  | succ n ih =>
    obtain ⟨parent, hparent, hancestor⟩ := Option.bind_eq_some_iff.1 h
    obtain ⟨hmem, hheight⟩ := ih hancestor
    rw [lineage_of_parent hparent, height_of_parent hparent]
    exact ⟨List.mem_append_left _ hmem, by omega⟩

theorem ancestor_succ (n : ℕ) (block : Block) :
    block.ancestor (n + 1) = (block.ancestor n).bind parent := by
  induction n generalizing block with
  | zero => simp [ancestor]
  | succ n ih =>
    rw [ancestor, ancestor, Option.bind_assoc]
    exact congrArg block.parent.bind (funext ih)

/-- The block extends what a replica locks when it accepts the other block, its grandparent. -/
def ExtendsLock (block earlier : Block) : Prop := ∀ locked ∈ earlier.ancestor 2, locked ∈ block.lineage

theorem extendsLock_self (block : Block) : block.ExtendsLock block :=
  fun _ h ↦ (ancestor_spec h).1

/-- Two blocks that a replica accepts under its locks have comparable grandparents. -/
theorem ExtendsLock.lineage_comparable {block earlier upper lower : Block}
    (h : block.ExtendsLock earlier) (hupper : block.ancestor 2 = some upper)
    (hlower : earlier.ancestor 2 = some lower) :
    lower.lineage <+: upper.lineage ∨ upper.lineage <+: lower.lineage :=
  List.prefix_or_prefix_of_prefix (lineage_prefix_of_mem (h lower hlower))
    (lineage_prefix_of_mem (ancestor_spec hupper).1)

end Block

/-! ## What a call executes -/

/-- The command that a call returns for execution. -/
def Outcome.executed (out : Outcome) : Option Request :=
  match out.answer with
  | .complete request _ => some request
  | _ => none

/-- The block whose command a call returns: the great-grandparent of the block it accepts. -/
def executedBlock (X : Externals) (t : ChainTransition) : Option Block :=
  t.out.executed.bind fun _ ↦ (acceptedBlock X t.pre t.event).bind (Block.ancestor 3)

theorem executed_sendFirst (out : Outcome) (send : SendType Payload) :
    (out.sendFirst send).executed = out.executed := by
  unfold Outcome.sendFirst Outcome.executed
  cases out.answer <;> rfl

theorem executed_conclude (p : ChainHotstuffProtocol) (queue : List (SendType Payload))
    (signed : Option Vote) (b1 : Block) :
    (p.conclude X queue signed b1).2.executed =
      (((b1.link X).bind fun qc ↦ qc.block.link X).bind fun qc ↦ qc.block.link X).map
        fun qc ↦ ⟨qc.block.cmd⟩ := by
  rw [conclude, formChain_eq]
  dsimp only
  cases ((b1.link X).bind fun qc ↦ qc.block.link X).bind fun qc ↦ qc.block.link X <;> rfl

section Sound

variable [DecidableEq ι] {D : Distribution ι} {history : ChainHistory ι} {block : Block}

theorem SoundBlock.link_eq (h : SoundBlock X D history block) : block.link X = block.justify := by
  cases hjustify : block.justify with
  | none => rw [Block.link, hjustify, Option.bind_none]
  | some qc => exact Block.link_eq_some.2 ⟨hjustify, (h qc hjustify).1⟩

theorem Formed.exists_accepted (h : Formed X D history block) : ∃ i, block ∈ accepted X history i := by
  obtain ⟨quorum, hcard, hall⟩ := h
  obtain ⟨i, hi⟩ := Finset.card_pos.1 (show 0 < quorum.card by omega)
  exact ⟨i, hall i hi⟩

/-- The parent of a sound block has been formed, and is sound. -/
theorem SoundBlock.formed_parent (h : SoundBlock X D history block) {parent : Block}
    (hparent : block.parent = some parent) : Formed X D history parent := by
  obtain ⟨qc, hjustify, rfl⟩ := Option.map_eq_some_iff.1 hparent
  exact (h qc hjustify).2

theorem HistoryInv.soundBlock_of_formed (hhistory : HistoryInv X D history)
    (h : Formed X D history block) : SoundBlock X D history block := by
  obtain ⟨i, hi⟩ := h.exists_accepted
  exact hhistory.blocks i block hi

/-- Below a sound block every link holds, so its great-grandparent is what is executed. -/
theorem HistoryInv.executed_conclude_eq (hhistory : HistoryInv X D history)
    (h : SoundBlock X D history block) (p : ChainHotstuffProtocol) (queue : List (SendType Payload))
    (signed : Option Vote) :
    (p.conclude X queue signed block).2.executed =
      (block.ancestor 3).map fun lower ↦ ⟨lower.cmd⟩ := by
  rw [executed_conclude, h.link_eq]
  cases h1 : block.justify with
  | none => simp [Block.ancestor, Block.parent, h1]
  | some qc1 =>
    have hsound1 := hhistory.soundBlock_of_formed (h qc1 h1).2
    rw [Option.bind_some, hsound1.link_eq]
    cases h2 : qc1.block.justify with
    | none => simp [Block.ancestor, Block.parent, h1, h2]
    | some qc2 =>
      have hsound2 := hhistory.soundBlock_of_formed (hsound1 qc2 h2).2
      rw [Option.bind_some, hsound2.link_eq]
      cases h3 : qc2.block.justify with
      | none => simp [Block.ancestor, Block.parent, h1, h2, h3]
      | some qc3 => simp [Block.ancestor, Block.parent, h1, h2, h3]

end Sound

section Step

variable [DecidableEq ι] {D : Distribution ι} {w : ChainWorld ι} {i : ι} {event : Event}
  {p' : ChainHotstuffProtocol} {out : Outcome}

theorem executed_block {p : ChainHotstuffProtocol} {taken : Finset Bytes} {me : Bytes} {b1 : Block}
    (hhistory : HistoryInv X D w.history) (hsound : SoundBlock X D w.history b1)
    (h : BlockEffect X me (p.take taken) b1 p' out) :
    out.executed = ((if p.safeNode X b1 b1.justify then some b1 else none).bind (Block.ancestor 3)).map
      fun lower ↦ ⟨lower.cmd⟩ := by
  cases h with
  | refused hrejected =>
    have hfalse : p.safeNode X b1 b1.justify = false := hrejected
    rw [if_neg (by simp [hfalse])]
    rfl
  | accepted p₁ queue signed hsafe hcast =>
    have htrue : p.safeNode X b1 b1.justify = true := hsafe
    rw [if_pos htrue, Option.bind_some]
    exact hhistory.executed_conclude_eq hsound p₁ queue signed

/-- A call executes the great-grandparent of the block that it accepts. -/
theorem executed_of_step (htaken : nodeStep X D i (w.nodes i) event = some (p', out))
    (hhistory : HistoryInv X D w.history) (hnode : NodeInv X D w.history (w.nodes i))
    (hdelivered : Delivered X D w (i, event)) :
    out.executed = ((acceptedBlock X (w.nodes i) event).bind (Block.ancestor 3)).map
      fun lower ↦ ⟨lower.cmd⟩ := by
  cases step_effect htaken with
  | generic generic b1 order taken p' out hblock hview hhandled =>
    have hsound := soundBlock_of_delivered hhistory hdelivered hblock
    have haccepted : acceptedBlock X (w.nodes i) (.message (.generic generic) order) =
        if (w.nodes i).safeNode X b1 b1.justify then some b1 else none := by
      simp only [acceptedBlock, hblock, hview, bind, pure, Option.bind_some, true_and]
    rw [haccepted]
    exact executed_block hhistory hsound hhandled
  | request request order taken p' out hhandled =>
    rw [executed_sendFirst]
    exact executed_block hhistory (soundBlock_proposed hnode.high request) hhandled
  | otherView generic b1 order taken hblock hview =>
    simp [acceptedBlock, hblock, hview, Outcome.executed, Outcome.of, silent]
  | newView generic order hblock =>
    simp [acceptedBlock, hblock, Outcome.executed, Outcome.of, silent]
  | newViewQuorum generic order highQC currentLeader nextLeader hblock hpicked =>
    simp [acceptedBlock, hblock, Outcome.executed, Outcome.of]
  | ignored msg order hmsg => rcases hmsg with rfl | ⟨text, rfl⟩ <;> rfl
  | _ => rfl

theorem executedBlock_of_step (htaken : nodeStep X D i (w.nodes i) event = some (p', out))
    (hhistory : HistoryInv X D w.history) (hnode : NodeInv X D w.history (w.nodes i))
    (hdelivered : Delivered X D w (i, event)) :
    executedBlock X ⟨w.nodes i, event, out, p'⟩ =
      (acceptedBlock X (w.nodes i) event).bind (Block.ancestor 3) := by
  rw [executedBlock, executed_of_step htaken hhistory hnode hdelivered]
  cases (acceptedBlock X (w.nodes i) event).bind (Block.ancestor 3) <;> rfl

end Step

/-! ## What replicas execute -/

section Executed

variable [DecidableEq ι]

/-- The commands that a replica has executed, oldest first. -/
def executed (history : ChainHistory ι) (i : ι) : List Request :=
  History.perNode (fun t ↦ t.out.executed) history i

/-- The blocks that a replica has executed, oldest first. -/
def executedBlocks (X : Externals) (history : ChainHistory ι) (i : ι) : List Block :=
  History.perNode (executedBlock X) history i

/-- Replicas execute prefixes of one sequence of commands, and a block after its ancestors. -/
structure ConsistentExecution (X : Externals) (history : ChainHistory ι) : Prop where
  prefixes : ∀ i j, executed history i <+: executed history j ∨ executed history j <+: executed history i
  ancestorsFirst : ∀ i before block after, executedBlocks X history i = before ++ block :: after →
    ∀ lower ∈ block.lineage, lower ≠ block → lower ∈ before

/-- An accepted block extends every block that the replica has locked, that is the grandparents of
the blocks it has accepted. If it leads to an execution, its height is the next one: the replica has
accepted one block of each height from the fourth on. -/
structure ExtendsChain (X : Externals) (w : ChainWorld ι) (delivery : ι × Event) : Prop where
  locks : ∀ block ∈ acceptedBlock X (w.nodes delivery.1) delivery.2,
    ∀ earlier ∈ accepted X w.history delivery.1, block.ExtendsLock earlier
  heights : ∀ block ∈ acceptedBlock X (w.nodes delivery.1) delivery.2, (block.ancestor 3).isSome = true →
    (accepted X w.history delivery.1).countP (fun earlier ↦ (earlier.ancestor 3).isSome) + 4 = block.height

/-- What the accepted blocks of one replica have in common. -/
structure ChainInv (X : Externals) (history : ChainHistory ι) (i : ι) : Prop where
  blocks : executedBlocks X history i = (accepted X history i).filterMap (Block.ancestor 3)
  commands : executed history i = (executedBlocks X history i).map fun block ↦ ⟨block.cmd⟩
  locks : (accepted X history i).Pairwise fun earlier later ↦ later.ExtendsLock earlier
  chain : ∀ last ∈ (executedBlocks X history i).getLast?, last.lineage = executedBlocks X history i

theorem ChainInv.start (X : Externals) (i : ι) : ChainInv X ([] : ChainHistory ι) i where
  blocks := rfl
  commands := rfl
  locks := List.Pairwise.nil
  chain := fun _ hlast ↦ absurd hlast (by simp [executedBlocks, History.perNode])

variable {D : Distribution ι} {w : ChainWorld ι} {i : ι} {event : Event} {p' : ChainHotstuffProtocol}
  {out : Outcome}

/-- The grandparent of the block that led to the last execution is the next block to execute: the new
block extends it, and it has the height of the new great-grandparent. -/
theorem ChainInv.extends (h : ChainInv X w.history i) (hchain : ExtendsChain X w (i, event))
    {block lower : Block} (haccepted : acceptedBlock X (w.nodes i) event = some block)
    (hlower : block.ancestor 3 = some lower) :
    lower.lineage = executedBlocks X w.history i ++ [lower] := by
  obtain ⟨hmem, hheight⟩ := Block.ancestor_spec hlower
  have hcount : (executedBlocks X w.history i).length + 4 = block.height := by
    rw [h.blocks, List.length_filterMap_eq_countP]
    exact hchain.heights block haccepted (by rw [hlower, Option.isSome_some])
  cases hlast : (executedBlocks X w.history i).getLast? with
  | none =>
    rw [List.getLast?_eq_none_iff] at hlast
    rw [hlast, List.length_nil] at hcount
    have hone : lower.height = 1 := by omega
    rw [hlast, Block.lineage_of_height_one hone, List.nil_append]
  | some last =>
    have hlength : last.height = (executedBlocks X w.history i).length := by
      rw [Block.height, h.chain last hlast]
    have hexecuted := List.mem_of_getLast? hlast
    rw [h.blocks] at hexecuted
    obtain ⟨earlier, hearlier, hlastAncestor⟩ := List.mem_filterMap.1 hexecuted
    rw [Block.ancestor_succ] at hlastAncestor
    obtain ⟨locked, hlocked, hparent⟩ := Option.bind_eq_some_iff.1 hlastAncestor
    have hextends := hchain.locks block haccepted earlier hearlier locked hlocked
    have hnext : lower.height = locked.height := by
      rw [Block.height_of_parent hparent]
      omega
    have hsame : lower = locked := Block.eq_of_height_eq (Block.lineage_prefix_of_mem hmem)
      (Block.lineage_prefix_of_mem hextends) hnext
    rw [hsame, Block.lineage_of_parent hparent, h.chain last hlast]

/-- A call at another replica changes nothing. -/
theorem ChainInv.frame {j : ι} (hj : i ≠ j) (h : ChainInv X w.history j) :
    ChainInv X (grown w i event out p') j := by
  have haccepted : accepted X (grown w i event out p') j = accepted X w.history j := by
    rw [accepted_append, if_neg hj, List.append_nil]
  have hblocks : executedBlocks X (grown w i event out p') j = executedBlocks X w.history j := by
    rw [executedBlocks, History.perNode_append, if_neg hj, List.append_nil, executedBlocks]
  have hcommands : executed (grown w i event out p') j = executed w.history j := by
    rw [executed, History.perNode_append, if_neg hj, List.append_nil, executed]
  exact ⟨by rw [hblocks, haccepted, h.blocks], by rw [hcommands, hblocks, h.commands],
    haccepted ▸ h.locks, hblocks ▸ h.chain⟩

/-- A call under the condition keeps the executed blocks the chain up to the last of them. -/
theorem ChainInv.step (htaken : nodeStep X D i (w.nodes i) event = some (p', out))
    (hhistory : HistoryInv X D w.history) (hnode : NodeInv X D w.history (w.nodes i))
    (hdelivered : Delivered X D w (i, event)) (hchain : ExtendsChain X w (i, event))
    (h : ChainInv X w.history i) : ChainInv X (grown w i event out p') i := by
  have haccepted : accepted X (grown w i event out p') i =
      accepted X w.history i ++ (acceptedBlock X (w.nodes i) event).toList := by
    rw [accepted_append, if_pos rfl]
  have hblocks : executedBlocks X (grown w i event out p') i = executedBlocks X w.history i ++
      ((acceptedBlock X (w.nodes i) event).bind (Block.ancestor 3)).toList := by
    rw [executedBlocks, History.perNode_append, if_pos rfl,
      executedBlock_of_step htaken hhistory hnode hdelivered, executedBlocks]
  constructor
  case blocks =>
    rw [hblocks, haccepted, List.filterMap_append, h.blocks]
    cases hblock : acceptedBlock X (w.nodes i) event with
    | none => rfl
    | some block => cases hlower : block.ancestor 3 <;> simp [hlower]
  case commands =>
    rw [hblocks, List.map_append, ← h.commands, executed, History.perNode_append, if_pos rfl,
      executed_of_step htaken hhistory hnode hdelivered, executed]
    cases (acceptedBlock X (w.nodes i) event).bind (Block.ancestor 3) <;> rfl
  case locks =>
    rw [haccepted, List.pairwise_append]
    refine ⟨h.locks, ?_, ?_⟩
    · cases acceptedBlock X (w.nodes i) event with
      | none => exact List.Pairwise.nil
      | some block => exact List.pairwise_singleton _ block
    · intro earlier hearlier block hblock
      exact hchain.locks block (Option.mem_toList.1 hblock) earlier hearlier
  case chain =>
    rw [hblocks]
    cases hlower : (acceptedBlock X (w.nodes i) event).bind (Block.ancestor 3) with
    | none =>
      rw [Option.toList_none, List.append_nil]
      exact h.chain
    | some lower =>
      obtain ⟨block, hblock, hancestor⟩ := Option.bind_eq_some_iff.1 hlower
      intro last hlast
      rw [Option.toList_some, List.getLast?_concat] at hlast
      obtain rfl := Option.some.inj hlast
      exact h.extends hchain hblock hancestor

/-- Of two accepted blocks, one extends the lock of the other. -/
theorem ChainInv.extendsLock_or {history : ChainHistory ι} (h : ChainInv X history i) {left right : Block}
    (hleft : left ∈ accepted X history i) (hright : right ∈ accepted X history i) :
    left.ExtendsLock right ∨ right.ExtendsLock left := by
  have : Std.Symm fun left right : Block ↦ left.ExtendsLock right ∨ right.ExtendsLock left :=
    ⟨fun _ _ hor ↦ hor.symm⟩
  have hpairwise : (accepted X history i).Pairwise
      fun left right ↦ left.ExtendsLock right ∨ right.ExtendsLock left := h.locks.imp .inr
  exact hpairwise.forall_of_forall (fun block _ ↦ .inl block.extendsLock_self) hleft hright

/-- The blocks that two replicas execute last lie on one chain: some replica has accepted the
grandchildren of both, and has locked both. -/
theorem lineage_comparable [Fintype ι] {history : ChainHistory ι}
    (hcard : Fintype.card ι ≤ 4 * D.faultCount.toNat + 1) (hhistory : HistoryInv X D history)
    (hinv : ∀ i, ChainInv X history i) {i j : ι} {left right : Block}
    (hleft : left ∈ executedBlocks X history i) (hright : right ∈ executedBlocks X history j) :
    left.lineage <+: right.lineage ∨ right.lineage <+: left.lineage := by
  -- An executed block is the grandparent of a block that a quorum has accepted.
  have hformed {k : ι} {block : Block} (h : block ∈ executedBlocks X history k) :
      ∃ upper, Formed X D history upper ∧ upper.ancestor 2 = some block := by
    rw [(hinv k).blocks] at h
    obtain ⟨top, htop, hancestor⟩ := List.mem_filterMap.1 h
    obtain ⟨upper, hparent, hupper⟩ := Option.bind_eq_some_iff.1 hancestor
    exact ⟨upper, (hhistory.blocks k top htop).formed_parent hparent, hupper⟩
  obtain ⟨upperLeft, ⟨quorumLeft, hcardLeft, hacceptedLeft⟩, hancestorLeft⟩ := hformed hleft
  obtain ⟨upperRight, ⟨quorumRight, hcardRight, hacceptedRight⟩, hancestorRight⟩ := hformed hright
  obtain ⟨k, hkleft, hkright, -⟩ := @Quorum.exists_mem_inter_notMem ι _ _ ∅ quorumLeft quorumRight
    (by rw [Finset.card_empty]; omega)
  rcases (hinv k).extendsLock_or (hacceptedLeft k hkleft) (hacceptedRight k hkright) with h | h
  · exact (h.lineage_comparable hancestorLeft hancestorRight).symm
  · exact h.lineage_comparable hancestorRight hancestorLeft

theorem executedBlocks_comparable [Fintype ι] {history : ChainHistory ι}
    (hcard : Fintype.card ι ≤ 4 * D.faultCount.toNat + 1) (hhistory : HistoryInv X D history)
    (hinv : ∀ i, ChainInv X history i) (i j : ι) :
    executedBlocks X history i <+: executedBlocks X history j ∨
      executedBlocks X history j <+: executedBlocks X history i := by
  cases hi : (executedBlocks X history i).getLast? with
  | none =>
    rw [List.getLast?_eq_none_iff.1 hi]
    exact .inl List.nil_prefix
  | some left =>
    cases hj : (executedBlocks X history j).getLast? with
    | none =>
      rw [List.getLast?_eq_none_iff.1 hj]
      exact .inr List.nil_prefix
    | some right =>
      have hleft := List.mem_of_getLast? hi
      have hright := List.mem_of_getLast? hj
      rw [← (hinv i).chain left hi, ← (hinv j).chain right hj]
      exact lineage_comparable hcard hhistory hinv hleft hright

theorem ChainInv.mem_before {history : ChainHistory ι} (h : ChainInv X history i)
    {before after : List Block} {block lower : Block}
    (hsplit : executedBlocks X history i = before ++ block :: after) (hlower : lower ∈ block.lineage)
    (hne : lower ≠ block) : lower ∈ before := by
  have hnonempty : executedBlocks X history i ≠ [] := by
    rw [hsplit]
    exact List.append_ne_nil_of_right_ne_nil _ (List.cons_ne_nil _ _)
  have hlast := h.chain _ (List.getLast?_eq_some_getLast hnonempty)
  rw [Block.lineage_of_split (hlast.trans hsplit)] at hlower
  rcases List.mem_append.1 hlower with hbefore | hself
  · exact hbefore
  · exact absurd (List.mem_singleton.1 hself) hne

/-- Every world that honest replicas reach under the condition. -/
theorem chainInv_of_reachable [Fintype ι] (hX : X.CollisionFree)
    (hblockBytes : Function.Injective X.blockBytes) {nodes : ι → ChainHotstuffProtocol}
    (hfresh : Fresh D nodes)
    (hreach : World.Reachable (nodeStep X D)
      (fun w delivery ↦ Delivered X D w delivery ∧ ExtendsChain X w delivery) (.start nodes) w) :
    ∀ i, ChainInv X w.history i := by
  induction hreach with
  | start => exact ChainInv.start X
  | @deliver w w' delivery previous met taken ih =>
    obtain ⟨hhistory, hnodes⟩ := invariant_of_reachable hX hblockBytes (fun _ _ h ↦ h.1) hfresh previous
    obtain ⟨p', out, hstep, -, hgrown⟩ := World.deliver_cases taken
    intro j
    rw [hgrown]
    by_cases hj : delivery.1 = j
    · subst hj
      exact (ih _).step hstep hhistory (hnodes _) met.1 met.2
    · exact (ih j).frame hj

/-- Honest replicas whose quorums intersect execute consistently, if every accepted block extends the
chain of the replica. -/
theorem consistentExecution_of_extendsChain [Fintype ι] (hX : X.CollisionFree)
    (hblockBytes : Function.Injective X.blockBytes)
    (hcard : Fintype.card ι ≤ 4 * D.faultCount.toNat + 1) {nodes : ι → ChainHotstuffProtocol}
    (hfresh : Fresh D nodes)
    (hreach : World.Reachable (nodeStep X D)
      (fun w delivery ↦ Delivered X D w delivery ∧ ExtendsChain X w delivery) (.start nodes) w) :
    ConsistentExecution X w.history := by
  have hinv := chainInv_of_reachable hX hblockBytes hfresh hreach
  obtain ⟨hhistory, -⟩ := invariant_of_reachable hX hblockBytes (fun _ _ h ↦ h.1) hfresh hreach
  constructor
  · intro i j
    rw [(hinv i).commands, (hinv j).commands]
    exact (executedBlocks_comparable hcard hhistory hinv i j).imp (·.map _) (·.map _)
  · intro i before block after hsplit lower hlower hne
    exact (hinv i).mem_before hsplit hlower hne

end Executed

/-! ## Four nodes -/

instance Block.ExtendsLock.decidable (block earlier : Block) : Decidable (block.ExtendsLock earlier) :=
  inferInstanceAs (Decidable (∀ locked ∈ earlier.ancestor 2, _))

instance ExtendsChain.decidable [DecidableEq ι] (X : Externals) (w : ChainWorld ι) (delivery : ι × Event) :
    Decidable (ExtendsChain X w delivery) :=
  decidable_of_iff
    ((∀ block ∈ acceptedBlock X (w.nodes delivery.1) delivery.2,
        ∀ earlier ∈ accepted X w.history delivery.1, block.ExtendsLock earlier) ∧
      ∀ block ∈ acceptedBlock X (w.nodes delivery.1) delivery.2, (block.ancestor 3).isSome = true →
        (accepted X w.history delivery.1).countP (fun earlier ↦ (earlier.ancestor 3).isSome) + 4 =
          block.height)
    ⟨fun h ↦ ⟨h.1, h.2⟩, fun h ↦ ⟨h.1, h.2⟩⟩

def freshReplicas (_ : Fin 4) : ChainHotstuffProtocol := ChainHotstuffProtocol.new 1 ""

theorem fresh_freshReplicas : Fresh fourNodes freshReplicas := fun _ ↦ ⟨"", rfl⟩

/-- The Generic of the view of a chain, with the last block of the chain. -/
def proposalOf (cmds : List String) : Event :=
  .message (.generic
    { viewNum := UInt64.ofNat cmds.length
      block := some (chainOf [0, 1, 2] cmds)
      justify := none
      fromPeerId := fourNodes.peerId (Fin.ofNat 4 cmds.length) }) []

/-- A view in which the leader proposes, two other nodes vote, and the next leader hears of all. The
event of the fourth node is a parameter. -/
def viewDeliveries (cmds : List String) (fourth : Event) : List (Fin 4 × Event) :=
  let viewNum := UInt64.ofNat cmds.length
  let leader : Fin 4 := Fin.ofNat 4 cmds.length
  let block := chainOf [0, 1, 2] cmds
  let vote (node : Fin 4) : Event := .message (.vote
    { viewNum := viewNum
      block := block
      partialSignature := (fourNodes.key .transparent node).sign Externals.transparent.toBlsttc
        (asBytes (getGenericHash .transparent GENERIC viewNum block))
      fromPeerId := fourNodes.peerId node }) []
  let newView (node : Fin 4) (justify : Option QC) : Event := .message (.generic
    { viewNum := viewNum, block := none, justify := justify, fromPeerId := fourNodes.peerId node }) []
  let parentJustify := (chainOf [0, 1, 2] cmds.tail).justify
  [(leader, .message (.request ⟨cmds.headD ""⟩) []), (leader + 1, proposalOf cmds),
    (leader + 2, proposalOf cmds), (leader + 3, fourth), (leader + 1, vote leader),
    (leader + 1, vote (leader + 2)), (leader + 1, newView leader block.justify),
    (leader + 1, newView (leader + 2) parentJustify), (leader + 1, newView (leader + 3) parentJustify)]

/-- Five views; node 3 gets the given event in the fourth. -/
def fiveViews (fourth : Event) : List (Fin 4 × Event) :=
  ((List.finRange 4).flatMap fun node ↦ (joinEvents node).map (node, ·)) ++
    viewDeliveries ["a"] (proposalOf ["a"]) ++ viewDeliveries ["b", "a"] (proposalOf ["b", "a"]) ++
    viewDeliveries ["c", "b", "a"] (proposalOf ["c", "b", "a"]) ++
    viewDeliveries ["d", "c", "b", "a"] fourth ++
    [(1, .message (.request ⟨"e"⟩) []), (3, proposalOf ["e", "d", "c", "b", "a"])]

theorem consistentExecution_of_extendsChain_four :
    ∃ w, World.Reachable (nodeStep .transparent fourNodes)
        (fun w delivery ↦ Delivered .transparent fourNodes w delivery ∧
          ExtendsChain .transparent w delivery) (.start freshReplicas) w ∧
      (executed w.history 0 = [⟨"a"⟩] ∧ executed w.history 3 = [⟨"a"⟩, ⟨"b"⟩]) ∧
      ConsistentExecution .transparent w.history := by
  have hrun : (World.exec (nodeStep .transparent fourNodes)
      (fun w delivery ↦ Delivered .transparent fourNodes w delivery ∧ ExtendsChain .transparent w delivery)
      (.start freshReplicas) (fiveViews (proposalOf ["d", "c", "b", "a"]))).map
        (fun w ↦ (executed w.history 0, executed w.history 3)) = some ([⟨"a"⟩], [⟨"a"⟩, ⟨"b"⟩]) := by
    decide +kernel
  obtain ⟨w, hexec, hexecuted⟩ := Option.map_eq_some_iff.1 hrun
  have hreach := World.Reachable.of_exec hexec
  exact ⟨w, hreach, Prod.mk.inj hexecuted,
    consistentExecution_of_extendsChain Platform.collisionFree_transparent
      blockBytes_transparent_injective (by decide) fresh_freshReplicas hreach⟩

/-- Node 3 misses the fourth block, and executes the second block of the chain without the first. -/
theorem not_consistentExecution_of_missed_block :
    Externals.transparent.CollisionFree ∧ Function.Injective Externals.transparent.blockBytes ∧
      Fintype.card (Fin 4) = 3 * fourNodes.faultCount.toNat + 1 ∧ Fresh fourNodes freshReplicas ∧
      ∃ w, World.Reachable (nodeStep .transparent fourNodes) (Delivered .transparent fourNodes)
          (.start freshReplicas) w ∧
        (executed w.history 0 = [⟨"a"⟩] ∧ executed w.history 3 = [⟨"b"⟩]) ∧
        ¬ ConsistentExecution .transparent w.history := by
  have hrun : (World.exec (nodeStep .transparent fourNodes) (Delivered .transparent fourNodes)
      (.start freshReplicas) (fiveViews .viewTimeout)).map
        (fun w ↦ (executed w.history 0, executed w.history 3)) = some ([⟨"a"⟩], [⟨"b"⟩]) := by
    decide +kernel
  obtain ⟨w, hexec, hexecuted⟩ := Option.map_eq_some_iff.1 hrun
  have hcommands := Prod.mk.inj hexecuted
  refine ⟨Platform.collisionFree_transparent, blockBytes_transparent_injective, by decide,
    fresh_freshReplicas, w, World.Reachable.of_exec hexec, hcommands, ?_⟩
  intro hconsistent
  have hprefix := hconsistent.prefixes 0 3
  rw [hcommands.1, hcommands.2] at hprefix
  exact absurd hprefix (by decide)

end BFTDiagnosis.ChainHotstuff
